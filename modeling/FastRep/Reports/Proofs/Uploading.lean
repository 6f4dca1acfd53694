/-
What the requests on assets commit: upload slots, confirmation, giving an
upload up, and deletion.

A confirmation decides on what it read of the row and of the object, each
at its own moment; its commit is stated with these reads (`Inspected`).
Its last statement is guarded by PENDING_UPLOAD, and so at the commit the
asset is still pending; whether it has expired by then is not asked again.

# Giving up

A rejection and an expiry enter their function first, which is a step of the
run: from there on the upload counts as given up. Then a cleanup task is
written, the object deleted, and the row changed (`Triple.giveUp`,
`Triple.rejectUpload`, `Keeps.expireUpload`).

# Reserving

`TxEnds.createPendingAsset` is about the rows of the transaction's snapshot
and a cutoff from a later reading of the clock: within the limits among the
assets that count, at a position past all of theirs.
-/
import FastRep.Reports.Proofs.Reporting
import FastRep.Reports.Proofs.Knowledge

namespace FastRep.Reports

open FastRep.Txn

variable {cfg : Config} {start : RState} {t : Tid} {s : Site} {S : RState} {P : Knows t}
  {q : Req} {α : Type} {C : RContract}

-- ====================================================== pending cleanup

/-- Every stored task was written. -/
theorem tasked_of_mem (hstart : Begins start) (hS : Runs (contract cfg start) S)
    {r : StorageCleanupTask} (hr : r ∈ cleanupTasks S.db) : Tasked S r.storageKey := by
  obtain ⟨x, hx, hxr⟩ := List.mem_filterMap.mp hr
  cases x with
  | cleanupTask x =>
      cases hxr
      rcases hS.written hx with hinit | ⟨e, he, s, ws, hev, w, hw, hrow⟩
      · rcases hstart.unused _ hinit with ⟨u, hu⟩ | ⟨u, hu⟩ <;> cases hu
      · refine ⟨e, he, s, ws, hev, w, hw, r, rfl, ?_⟩
        cases w with
        | insert y =>
            cases hrow
            exact Or.inl rfl
        | update y =>
            cases hrow
            exact Or.inr rfl
        | erase _ => cases hrow
  | _ => cases hxr

/-- The keys that are retried have a task. -/
theorem pendingKeys_mem {limit : Nat} {d : Db Row} {k : StorageKey}
    (h : k ∈ pendingKeys limit d) : ∃ r ∈ cleanupTasks d, r.storageKey = k := by
  obtain ⟨r, hr, hk⟩ := List.mem_map.mp h
  exact ⟨r, (List.mem_insertionSort _).mp (List.mem_of_mem_take hr), hk⟩

/-- The retries delete objects on behalf of tasks only. -/
theorem Keeps.retryPending (hstart : Begins start)
    (hallow : ∀ s : Site, s.working = false → Allows P s) :
    Keeps (contract cfg start) P retryPending := by
  refine Triple.bind (Triple.read rfl (hallow _ rfl) (fun _ => rfl)
    fun _ _ hP => P.lasts Later.rollback hP) fun keys => ?_
  let K : Knows t := P.and (Traced (fun S => ∀ k ∈ keys, Tasked S k)
    fun _ _ htr h k hk => (h k hk).mono htr)
  refine Triple.of_known fun S hS ⟨hP, e, he, _, _, hread, _⟩ => ⟨K, ⟨hP, fun k hk => ?_⟩, ?_⟩
  · obtain ⟨S₀, S₁, hpast⟩ := hS.since hstart.trace he
    rw [← hread] at hk
    obtain ⟨r, hr, rfl⟩ := pendingKeys_mem hk
    rw [← hpast.scene] at hr
    exact (tasked_of_mem hstart hpast.runs hr).mono
      ((List.suffix_cons _ _).trans hpast.suffix)
  · have hcleanup : Keeps (contract cfg start) K (Reports.attemptAll keys) :=
      Keeps.attemptAll (fun k => ⟨Allows.and (hallow _ rfl), Allows.and (hallow _ rfl)⟩) keys
        fun k hk S hS => hS.2 k hk
    have hrest : Keeps (contract cfg start) K (Reports.attemptAll keys >>= fun outcome =>
        Prog.settle outcome >>= fun outcomes => (pure (outcomes.filter id).length : Async Nat)) :=
      Keeps.bind hcleanup fun _ => Keeps.bind Keeps.settle fun _ => Keeps.pure
    exact hrest.conseq (fun _ h => h) (fun _ _ h => h.1) fun _ _ h => h.1

-- ========================================================== asset rows

section Statements

variable {β : Type} {F : β → List (Write Row Key) → RState → Prop} {assetId : Id}

/-- A guarded update of an asset. -/
theorem TxSafe.updateAsset {p : ReportAsset → Bool} {f : ReportAsset → ReportAsset}
    {k : Nat → InTransaction β} (hid : ∀ x, (f x).id = x.id)
    (h₀ : ∀ S', Within C t s S S' → TxSafe C t s F (k 0) [] S')
    (h₁ : ∀ S' x, Within C t s S S' → p x = true →
      (∀ S'', Within C t s S' S'' → asset? S''.db assetId = some x) →
      TxSafe C t s F (k 1) [.update (.asset (f x))] S') :
    TxSafe C t s F (updateRow (.asset assetId) (onAsset p) (setAsset f) >>= k) [] S := by
  refine TxSafe.updateRow (fun S₁ _ hW₁ _ => h₀ _ hW₁) fun S₁ r _ hW₁ hfind hp _ => ?_
  obtain ⟨x, rfl, hxid⟩ := find?_asset hfind
  refine h₁ _ x hW₁ hp fun S' hW => ?_
  rw [asset?_eq_some, ← hxid, ← hid x]
  refine (Within.find?_of_write (w := .update (Row.asset (f x))) hW).trans ?_
  show S₁.db.find? (Key.asset (f x).id) = _
  rw [hid, hxid]
  exact hfind

end Statements

/-- A pending asset is rejected. -/
theorem Keeps.settleRejected {assetId : Id} {reason : String}
    (hs : s = .markRejected assetId ∨ s = .markExpired assetId) (hallow : Allows P s) :
    Keeps (contract cfg start) P (settlePending s assetId (·.rejected reason)) := by
  have heffect : ∀ S ws, (ws = [] ∨ ∃ x reason, asset? S.db assetId = some x ∧
      x.status = .pendingUpload ∧ ws = [.update (.asset (x.rejected reason))]) →
      Effect cfg t s ws S := by
    rcases hs with rfl | rfl <;> exact fun _ _ h => h
  refine Keeps.effect (by rcases hs with rfl | rfl <;> rfl) hallow fun S _ =>
    TxSafe.of_bind_pure ?_
  refine TxSafe.updateAsset (fun _ => rfl)
    (fun S₁ _ => TxSafe.pure fun S₂ _ => heffect S₂ _ (Or.inl rfl)) fun S₁ x _ hp hx => ?_
  refine TxSafe.pure fun S₂ hS₂ => heffect S₂ _ (Or.inr ⟨x, reason, hx S₂ hS₂.within, ?_, rfl⟩)
  simpa using hp

-- ==================================================== giving an upload up

/-- The thread read this version of an asset. -/
def Reads (x : ReportAsset) : Knows t := .entry fun e => asset? e.before.db x.id = some x

/-- The upload of the asset was given up. -/
def Gives (assetId : Id) : Knows t := .entry fun e => GivesUp e assetId

/-- The object of an asset that was given up is scheduled and deleted. -/
theorem Keeps.enqueueAndAttempt {x : ReportAsset} {reason : StorageCleanupReason}
    (hallow : ∀ s : Site, s.working = false → Allows P s)
    (hread : ∀ S, P.holds S → (Reads (t := t) x).holds S)
    (hgive : ∀ S, P.holds S → (Gives (t := t) x.id).holds S) :
    Keeps (contract cfg start) P (enqueueAndAttempt x.storageKey reason) := by
  refine Triple.bind (Triple.writeTask (hallow _ rfl) (fun _ _ hP => P.lasts (Later.commit rfl) hP)
    (fun S w hP hw => ⟨w, x, rfl, hw, hread S hP, rfl, hgive S hP⟩)
    fun _ _ hP => P.lasts Later.rollback hP) fun _ => ?_
  have hcleanup : Keeps (contract cfg start) (P.and (HasTask x.storageKey))
      (attempt x.storageKey) :=
    Keeps.attemptCleanup (Allows.and (hallow _ rfl)) (Allows.and (hallow _ rfl))
      fun S hS => hS.2
  exact hcleanup.conseq (fun _ h => h) (fun _ _ h => h.1) fun _ _ h => h.1

/-- Giving an upload up is entered before the object goes. -/
theorem Triple.giveUp {x : ReportAsset} {p : Async α} {Q : α → Knows t} {E : Error → Knows t}
    (hs : s = .rejectUpload x.id ∨ s = .expireUpload x.id)
    (hread : ∀ S, P.holds S → (Reads (t := t) x).holds S)
    (h : Triple (contract cfg start) (P.and (Gives x.id)) p Q E) :
    Triple (contract cfg start) P (.enter s p) Q E := by
  refine Triple.enter (K := P.and (Gives x.id)) (fun S hP => ?_) (fun S hP => ?_) h
  · obtain ⟨e, he, hx⟩ := hread S hP
    have hread : Once S fun d => (asset? d x.id).isSome = true :=
      ⟨e, he, Option.isSome_of_eq_some hx⟩
    rcases hs with rfl | rfl <;> exact hread
  · refine ⟨P.lasts (Later.entry ?_) hP, ⟨t, .enter s, S.toScene⟩, List.mem_cons_self, ?_⟩
    · rcases hs with rfl | rfl <;> rfl
    · rcases hs with rfl | rfl
      · exact Or.inl rfl
      · exact Or.inr rfl

/-- A rejection ends in a throw. -/
theorem Triple.rejectUpload {x : ReportAsset} {code message : String} {Q : α → Knows t}
    (hallow : ∀ s : Site, s.working = false → Allows P s)
    (hread : ∀ S, P.holds S → (Reads (t := t) x).holds S) :
    Triple (contract cfg start) P (rejectUpload x code message : Async α) Q (fun _ => P) := by
  have hall : ∀ s : Site, s.working = false → Allows (P.and (Gives x.id)) s :=
    fun s hs => Allows.and (hallow s hs)
  refine Triple.giveUp (Or.inl rfl) hread ?_
  refine Triple.bind (R := fun _ => P.and (Gives x.id)) (Triple.forget
    (Keeps.enqueueAndAttempt hall (fun S hS => hread S hS.1) fun S hS => hS.2)) fun _ => ?_
  refine Triple.bind (R := fun _ => P.and (Gives x.id)) (Triple.forget
    (Keeps.settleRejected (Or.inl rfl) (hall _ rfl))) fun _ => ?_
  exact Triple.throw fun _ h => h.1

/-- An expired upload is given up before its object goes. -/
theorem Keeps.expireUpload {x : ReportAsset}
    (hallow : ∀ s : Site, s.working = false → Allows P s)
    (hread : ∀ S, P.holds S → (Reads (t := t) x).holds S) :
    Keeps (contract cfg start) P (expireUpload x) := by
  have hall : ∀ s : Site, s.working = false → Allows (P.and (Gives x.id)) s :=
    fun s hs => Allows.and (hallow s hs)
  refine Keeps.catch (Triple.giveUp (Or.inr rfl) hread ?_) fun _ => Keeps.pure
  refine Triple.bind (R := fun _ => P.and (Gives x.id)) (Triple.forget
    (Keeps.enqueueAndAttempt hall (fun S hS => hread S hS.1) fun S hS => hS.2)) fun _ => ?_
  exact (Keeps.settleRejected (Or.inr rfl) (hall _ rfl)).conseq (fun _ h => h)
    (fun _ _ h => h.1) fun _ _ h => h.1

theorem Keeps.expireAll (hallow : ∀ s : Site, s.working = false → Allows P s)
    (expired : List ReportAsset)
    (hread : ∀ x ∈ expired, ∀ S, P.holds S → (Reads (t := t) x).holds S) :
    Keeps (contract cfg start) P (expireAll expired) := by
  induction expired with
  | nil => exact Keeps.pure
  | cons x rest ih =>
      refine Keeps.bind (Keeps.expireUpload hallow (hread x List.mem_cons_self)) fun _ => ?_
      exact Keeps.bind (ih fun y hy => hread y (List.mem_cons_of_mem _ hy)) fun _ => Keeps.pure

theorem Keeps.cleanupExpired {reportId : Id}
    (hallow : ∀ s : Site, s.working = false → Allows P s) :
    Keeps (contract cfg start) P (cleanupExpiredPendingUploads cfg reportId) := by
  refine Keeps.bind Keeps.clock fun now => ?_
  refine Triple.bind (Triple.read rfl (hallow _ rfl) (fun _ => rfl)
    fun _ _ hP => P.lasts Later.rollback hP) fun expired => ?_
  let K : Knows t := P.and (Traced (fun S => ∀ x ∈ expired, (Reads (t := t) x).holds S)
    fun _ _ htr h x hx => (h x hx).imp fun e ⟨he, hp⟩ => ⟨htr.subset he, hp⟩)
  refine Triple.of_known fun S _ ⟨hP, e, he, _, _, hread, _⟩ => ⟨K, ⟨hP, fun x hx => ?_⟩, ?_⟩
  · rw [← hread, List.mem_filter, mem_assets] at hx
    exact ⟨e, he, hx.1⟩
  · exact (Keeps.expireAll (P := K) (fun s hs => Allows.and (hallow s hs)) expired
      fun x hx S hS => hS.2 x hx).conseq (fun _ h => h) (fun _ _ h => h.1) fun _ _ h => h.1

-- ============================================================ confirmation

/-- The thread found the report editable. -/
def Checks (reportId : Id) : Knows t :=
  Traced (Checked · t reportId) fun _ _ htr ⟨e, he, hp⟩ => ⟨e, htr.subset he, hp⟩

/-- What is editable is a draft or has failed. -/
theorem reportNotEditable_none {status : ReportStatus} (h : reportNotEditable status = none) :
    status = .draft ∨ status = .failed := by
  unfold reportNotEditable at h
  split at h
  next hs => exact hs
  next =>
      split at h
      next => cases h
      next => cases h

theorem Triple.assertEditableReport {userId reportId : Id}
    (hallow : ∀ s : Site, s.working = false → Allows P s) :
    Triple (contract cfg start) P (assertEditableReport userId reportId)
      (fun _ => P.and (Checks reportId)) (fun _ => P) := by
  refine Triple.bind (Triple.read rfl (hallow _ rfl) (fun _ => rfl)
    fun _ _ hP => P.lasts Later.rollback hP) fun report => ?_
  cases report with
  | none => exact Triple.throw fun _ h => h.1
  | some report =>
      dsimp only
      split
      next => exact Triple.throw fun _ h => h.1
      next hnone =>
          refine Triple.pure fun S hS => ?_
          obtain ⟨hP, e, he, ht, hev, hread, -⟩ := hS
          refine ⟨hP, e, he, ht, hev, report, ?_, reportNotEditable_none hnone⟩
          exact (Option.filter_eq_some_iff.mp hread).1

theorem Triple.findOwnedAsset {userId reportId assetId : Id}
    (hallow : ∀ s : Site, s.working = false → Allows P s) :
    Triple (contract cfg start) P (findOwnedAsset userId reportId assetId)
      (fun x => (P.and (Reads x)).and (.prop (x.id = assetId))) (fun _ => P) := by
  refine Triple.bind (Triple.read rfl (hallow _ rfl) (fun _ => rfl)
    fun _ _ hP => P.lasts Later.rollback hP) fun asset => ?_
  cases asset with
  | none => exact Triple.throw fun _ h => h.1
  | some x =>
      refine Triple.pure fun S ⟨hP, e, he, _, _, hread, _⟩ => ?_
      have hx := (Option.filter_eq_some_iff.mp hread).1
      have hid := asset?_id hx
      exact ⟨⟨hP, e, he, hid ▸ hx⟩, hid⟩

/-- The size of the object, as the store answered it. -/
theorem Answered.size {k : StorageKey} {size : Option Nat}
    (h : (Answered P (.headObject k) size).holds S) : ∃ e ∈ S.trace, e.tid = t ∧
      (∀ q, (∀ S, P.holds S → (t, q) ∈ S.live) → (t, q) ∈ e.before.live) ∧
      (∃ c, e.event = .call (.headObject k) c) ∧
      (e.before.env.object? k).map List.length = size := by
  obtain ⟨e, he, ht, ⟨c, env, hev, hperform⟩, hlive⟩ := h
  refine ⟨e, he, ht, hlive, ⟨c, hev⟩, ?_⟩
  cases c with
  | done =>
      cases hperform
      rfl
  | _ => simp [Services.perform, Call.throws, Call.losable, Call.serve] at hperform

/-- The leading bytes of the object, as the store answered them. -/
theorem Answered.bytes {k : StorageKey} {n : Nat} {bytes : Bytes}
    (h : (Answered P (.getObject k (some n)) bytes).holds S) : ∃ e ∈ S.trace, e.tid = t ∧
      (∀ q, (∀ S, P.holds S → (t, q) ∈ S.live) → (t, q) ∈ e.before.live) ∧
      (∃ c, e.event = .call (.getObject k (some n)) c) ∧
      ∃ object, e.before.env.object? k = some object ∧ bytes = object.take n := by
  obtain ⟨e, he, ht, ⟨c, env, hev, hperform⟩, hlive⟩ := h
  refine ⟨e, he, ht, hlive, ⟨c, hev⟩, ?_⟩
  cases c with
  | done =>
      simp only [Services.perform, Call.serve] at hperform
      cases hobject : e.before.env.object? k with
      | none => simp [hobject] at hperform
      | some object =>
          simp only [hobject, Option.map_some, Option.some.injEq, Prod.mk.injEq] at hperform
          exact ⟨object, rfl, (Except.ok.inj hperform.1).symm⟩
  | _ => simp [Services.perform, Call.throws, Call.losable, Call.serve] at hperform

/-- What a confirmation found out before it changes the status. -/
def Inspects (cfg : Config) (x : ReportAsset) (inspection : AssetInspection) (size : Nat) :
    Knows t :=
  Traced (Inspected cfg · t x inspection size) fun _ _ htr h =>
    { read := h.read.mono htr
      head := h.head.imp fun _ h => ⟨htr.subset h.1, h.2⟩
      bytes := h.bytes.imp fun _ h => ⟨htr.subset h.1, h.2⟩
      size_ok := h.size_ok
      accepted := h.accepted }

section Confirm

variable {userId reportId assetId : Id} {x : ReportAsset}

/-- A confirmation makes an asset READY that it has inspected. -/
theorem Triple.publishAsset {inspection : AssetInspection} {size : Nat}
    (hallow : ∀ s : Site, s.working = false → Allows P s)
    (hlive : ∀ S, P.holds S → ∃ u r, (t, Req.confirmUpload u r x.id) ∈ S.live)
    (hinspect : ∀ S, P.holds S → (Inspects (t := t) cfg x inspection size).holds S) :
    Keeps (contract cfg start) P (publishAsset userId reportId x inspection size) := by
  refine Keeps.bind ?_ fun count => ?_
  · refine Keeps.transaction (F := fun ws S' => ws = [] ∨ ∃ y, asset? S'.db x.id = some y ∧
      y.status = .pendingUpload ∧ ws = [.update (.asset (y.verified inspection size))]) rfl
      (fun S _ => TxSafe.of_bind_pure ?_) fun ws S hP hF => ⟨?_, hallow _ rfl S hP⟩
    · refine TxSafe.updateAsset (fun _ => rfl) (fun S₁ _ => TxSafe.pure fun _ _ => Or.inl rfl)
        fun S₁ y _ hp hy => TxSafe.pure fun S₂ hS₂ => Or.inr ⟨y, hy S₂ hS₂.within, ?_, rfl⟩
      simpa using hp
    · refine hF.imp_right fun ⟨y, hy, hpending, hws⟩ => ?_
      exact ⟨y, x, inspection, size, hy, hpending, rfl, hlive S hP, hinspect S hP, hws⟩
  · split
    next =>
        refine Keeps.bind ((Triple.findOwnedAsset hallow).conseq (fun _ h => h)
          (fun _ _ h => h.1.1) fun _ _ h => h) fun concurrent => ?_
        split
        next => exact Keeps.pure
        next => exact Keeps.throw
    next =>
        have heffect : ∀ S, Effect cfg t (.findAsset x.id) [] S := fun _ => rfl
        exact (Triple.readOrThrow rfl (hallow _ rfl) heffect
          fun _ _ hP => P.lasts Later.rollback hP).conseq (fun _ h => h)
          (fun _ _ h => h.1) fun _ _ h => h

/-- A call that is tried: the answer of the service, or its error. -/
theorem Triple.tryCall {c : Call} {p : Async c.Value} {f : Except Error c.Value → Async α}
    (hp : p = awaitOk c) (hcall : ∀ S, P.holds S → CallOk t c S)
    (herr : ∀ e, Keeps (contract cfg start) P (f (.error e)))
    (hok : ∀ a, Keeps (contract cfg start) (P.and (Answered P c a)) (f (.ok a))) :
    Keeps (contract cfg start) P (p.attempt >>= f) := by
  let R : Except Error c.Value → Knows t := fun r => match r with
    | .ok a => P.and (Answered P c a)
    | .error _ => P
  subst hp
  refine Triple.bind (R := R) (Triple.attempt (Triple.call hcall)) fun r => ?_
  cases r with
  | error e => exact herr e
  | ok a => exact (hok a).conseq (fun _ h => h) (fun _ _ h => h.1) fun _ _ h => h.1

/-- The leading bytes decide, once the size is right. -/
theorem Keeps.inspectUpload {size : Nat} (hallow : ∀ s : Site, s.working = false → Allows P s)
    {u r : Id} (hlive : ∀ S, P.holds S → (t, Req.confirmUpload u r x.id) ∈ S.live)
    (hread : ∀ S, P.holds S → (Reads (t := t) x).holds S)
    (hhead : ∀ S, P.holds S → ∃ e ∈ S.trace, Confirming e t x.id ∧
      (∃ c, e.event = .call (.headObject x.storageKey) c) ∧
      (e.before.env.object? x.storageKey).map List.length = some size)
    (hsize : sizeRejection cfg x size = none) :
    Keeps (contract cfg start) P (do
      let inspectionBytes ← (readInspectionBytes x.storageKey).attempt
      match inspectionBytes with
      | .error _ => .throw storageUnavailable
      | .ok bytes =>
          match inspectionRejection cfg x (inspectAssetBytes bytes size) with
          | .error rejection => Reports.rejectUpload x rejection.1 rejection.2
          | .ok inspection =>
              Reports.publishAsset userId reportId x inspection size) := by
  refine Triple.tryCall (c := .getObject x.storageKey (some inspectionRangeBytes)) rfl
    (fun _ _ => trivial) (fun _ => Keeps.throw) fun bytes => ?_
  have hall : ∀ {K : Knows t} (s : Site), s.working = false → Allows (P.and K) s :=
    fun s hs => Allows.and (hallow s hs)
  cases haccept : inspectionRejection cfg x (inspectAssetBytes bytes size) with
  | error rejection =>
      simp only [haccept]
      exact Triple.rejectUpload hall fun S hS => hread S hS.1
  | ok inspection =>
      simp only [haccept]
      have hinspect : inspectAssetBytes bytes size = some inspection := by
        unfold inspectionRejection at haccept
        split at haccept
        next => cases haccept
        next i hi =>
            rw [hi]
            repeat' split at haccept
            all_goals cases haccept
            rfl
      refine Triple.of_known fun S _ hS => ⟨(P.and (Answered P _ bytes)).and
        (Inspects cfg x inspection size), ⟨hS, ?_⟩, ?_⟩
      · obtain ⟨e, he, ht, hlived, hev, object, hobject, hbytes⟩ := Answered.bytes hS.2
        refine ⟨hread S hS.1, hhead S hS.1,
          ⟨e, he, ⟨ht, u, r, hlived _ hlive⟩, hev, object, hobject, ?_⟩,
          hsize, ?_⟩
        · rw [← hbytes]
          exact hinspect
        · rw [← hinspect]
          exact haccept
      · exact (Triple.publishAsset (fun s hs => Allows.and (Allows.and (hallow s hs)))
          (fun S hS => ⟨u, r, hlive S hS.1.1⟩) fun S hS => hS.2).conseq
          (fun _ h => h) (fun _ _ h => h.1) fun _ _ h => h.1

/-- An upload that was inspected becomes READY or is rejected. -/
theorem Keeps.verifyUpload (hallow : ∀ s : Site, s.working = false → Allows P s)
    {u r : Id} (hlive : ∀ S, P.holds S → (t, Req.confirmUpload u r x.id) ∈ S.live)
    (hread : ∀ S, P.holds S → (Reads (t := t) x).holds S) :
    Keeps (contract cfg start) P (verifyUpload cfg userId reportId x) := by
  have hall : ∀ {K : Knows t} (s : Site), s.working = false → Allows (P.and K) s :=
    fun s hs => Allows.and (hallow s hs)
  refine Triple.tryCall (c := .headObject x.storageKey) rfl
    (fun _ _ => trivial) (fun _ => Keeps.throw) fun size => ?_
  cases size with
  | none => exact Triple.rejectUpload hall fun S hS => hread S hS.1
  | some size =>
      cases hsize : sizeRejection cfg x size with
      | some rejection =>
          simp only [hsize]
          exact Triple.rejectUpload hall fun S hS => hread S hS.1
      | none =>
          simp only [hsize]
          refine Keeps.inspectUpload hall (u := u) (r := r) (fun S hS => hlive S hS.1)
            (fun S hS => hread S hS.1) (fun S hS => ?_) hsize
          obtain ⟨e, he, ht, hlived, hev, hlength⟩ := Answered.size hS.2
          exact ⟨e, he, ⟨ht, u, r, hlived _ hlive⟩, hev, hlength⟩

/-- A confirmation inspects what it has read. -/
theorem Keeps.confirmUpload (hallow : ∀ s : Site, s.working = false → Allows P s)
    (hlive : ∀ S, P.holds S → (t, Req.confirmUpload userId reportId assetId) ∈ S.live) :
    Keeps (contract cfg start) P (confirmUpload cfg userId reportId assetId) := by
  refine Triple.bind (Triple.findOwnedAsset hallow) fun x => ?_
  let K : Knows t := (P.and (Reads x)).and (.prop (x.id = assetId))
  have hall : ∀ s : Site, s.working = false → Allows K s :=
    fun s hs => Allows.and (Allows.and (hallow s hs))
  suffices h : Keeps (contract cfg start) K _ from
    h.conseq (fun _ h => h) (fun _ _ h => h.1.1) fun _ _ h => h.1.1
  split
  next => exact Keeps.pure
  next =>
      split
      next => exact Keeps.throw
      next =>
          refine Keeps.bind ((Triple.assertEditableReport hall).conseq (fun _ h => h)
            (fun _ _ h => h.1) fun _ _ h => h) fun _ => ?_
          refine Keeps.bind Keeps.clock fun now => ?_
          split
          next => exact Triple.rejectUpload hall fun S hS => hS.1.2
          next =>
              refine Keeps.verifyUpload hall (u := userId) (r := reportId) (fun S hS => ?_)
                fun S hS => hS.1.2
              rw [hS.2]
              exact hlive S hS.1.1

end Confirm

-- ================================================================ requests

/-- One past the highest position is past every position. -/
theorem position_lt_foldl {l : List ReportAsset} {y : ReportAsset} (hy : y ∈ l) :
    y.position < (l.map (·.position + 1)).foldl max 0 := by
  have hle : ∀ (l : List Nat) (n : Nat), n ≤ l.foldl max n := by
    intro l
    induction l with
    | nil => exact fun n => Nat.le_refl n
    | cons m l ih => exact fun n => Nat.le_trans (Nat.le_max_left n m) (ih _)
  have hlt : ∀ (l : List Nat) (m n : Nat), m ∈ l → m ≤ l.foldl max n := by
    intro l
    induction l with
    | nil => exact fun _ _ h => by cases h
    | cons i l ih =>
        intro m n hm
        rcases List.mem_cons.mp hm with rfl | hm
        · exact Nat.le_trans (Nat.le_max_right n m) (hle l _)
        · exact ih m _ hm
  exact hlt _ _ 0 (List.mem_map.mpr ⟨y, hy, rfl⟩)

/-- A place is reserved within the limits, as the snapshot shows them. -/
theorem TxEnds.createPendingAsset {userId reportId assetId n : Id}
    {dto : RequestAssetUploadDto} (hids : S.ids t = [n, assetId]) (hmarks : marks S t = []) :
    TxEnds S.clock S.db (fun _ ws => Reserving cfg t assetId ws S)
      (createPendingAsset cfg userId reportId assetId (.asset userId reportId assetId n) dto)
      [] := by
  refine TxEnds.select ?_
  rw [applyAll_nil]
  cases hreport : ownedReport userId reportId S.db with
  | none => exact TxEnds.throw _
  | some report =>
      obtain ⟨hreport, -⟩ := Option.filter_eq_some_iff.mp hreport
      cases hedit : reportNotEditable report.status with
      | some e =>
          simp only [hedit]
          exact TxEnds.throw _
      | none =>
          simp only [hedit]
          refine TxEnds.lateClock fun now hnow _ => TxEnds.select ?_
          rw [applyAll_nil]
          split
          next => exact TxEnds.throw _
          next hcount =>
              split
              next => exact TxEnds.throw _
              next hbytes =>
                  refine TxEnds.lateClock fun createdAt _ hcreated => TxEnds.of_bind_pure
                    (TxEnds.insertRow fun hnone _ => TxEnds.pure ?_)
                  refine ⟨_, report, userId, n, now, rfl, rfl, rfl, rfl, hnow, hcreated, rfl, ?_,
                    hids, hmarks,
                    hreport, reportNotEditable_none hedit, Nat.lt_of_not_le hcount,
                    Nat.le_of_not_lt hbytes, fun y hy => position_lt_foldl hy⟩
                  rw [applyAll_nil] at hnone
                  exact asset?_eq_none.mpr hnone

/-- A request for an upload reserves a place with the ids it has drawn. -/
theorem Triple.requestUpload {userId reportId : Id} {dto : RequestAssetUploadDto}
    (hstart : Begins start) (hq : q.ofClient = true) :
    Triple (contract cfg start) (Fresh q : Knows t) (requestUpload cfg userId reportId dto)
      (fun _ => Known.serving q) (fun _ => Known.serving q) := by
  have hallow : ∀ s : Site, s.working = false → Allows (Fresh q : Knows t) s :=
    fun s hs => Allows.drew hs hq
  have hfresh : ∀ {β : Type} {p : Async β}, Keeps (contract cfg start) (Fresh q : Knows t) p →
      Triple (contract cfg start) (Fresh q : Knows t) p (fun _ => Fresh q)
        (fun _ => Known.serving q) :=
    fun h => h.conseq (fun _ h => h) (fun _ _ h => h) fun _ _ h => h.1
  refine Triple.bind (hfresh ((Triple.assertEditableReport hallow).conseq (fun _ h => h)
    (fun _ _ h => h.1) fun _ _ h => h)) fun _ => ?_
  refine Triple.bind (R := fun _ => Fresh q) (hfresh ?_) fun _ => ?_
  · unfold validateDeclaredUpload
    split
    next => exact Keeps.throw
    next =>
        split
        next => exact Keeps.throw
        next => exact Keeps.pure
  refine Triple.bind (hfresh (Keeps.attempt (Keeps.retryPending hstart hallow))) fun _ => ?_
  refine Triple.bind (hfresh (Keeps.cleanupExpired hallow)) fun _ => ?_
  refine Triple.bind (R := fun assetId => Drawn q assetId)
    (Triple.randomUUID fun _ _ hP => Known.drew_drawn hP) fun assetId => ?_
  refine Triple.bind (R := fun nonce => (Known.serving q).and (.drew [nonce, assetId] []))
    (Triple.randomUUID fun _ _ hP => Known.drew_drawn hP) fun nonce => ?_
  refine Triple.bind (R := fun _ => Known.serving q) ?_ fun _ => ?_
  · refine (Triple.retryOnConflict (Q := fun _ => Known.serving q) 3 ?_).conseq (fun _ h => h)
      (fun _ _ h => h) fun _ _ h => h.1
    refine Triple.serializable (fun S hP => ?_) fun _ _ hP => Known.lasts _ Later.rollback hP
    exact (TxEnds.createPendingAsset hP.2.1 hP.2.2).mono fun _ ws heff =>
      ⟨⟨heff, Allows.drew (s := .createPendingAsset assetId) rfl hq S hP⟩,
        Known.serving_commit hP.1⟩
  · refine Keeps.bind (Keeps.attempt (Keeps.call fun _ _ => trivial)) fun contract => ?_
    cases contract with
    | ok _ => exact Keeps.pure
    | error _ =>
        refine Keeps.bind ?_ fun _ => Keeps.throw
        refine Keeps.effect rfl (Allows.serving rfl hq) fun S _ => TxSafe.of_bind_pure ?_
        refine TxSafe.deleteRow (fun _ _ _ _ => TxSafe.pure fun _ _ => Or.inl rfl)
          fun S₁ r _ _ hfind hp => TxSafe.pure fun S₂ hS₂ => Or.inr ?_
        obtain ⟨x, rfl, hid⟩ := find?_asset hfind
        have hdiscard := Discards.of_deletion (Db.mem_of_find? hfind)
        rw [hid] at hdiscard
        refine ⟨hdiscard, x, ?_, by simpa [onAsset] using hp⟩
        rw [asset?_eq_some]
        exact (hS₂.within.find?_of_writes hdiscard.1).trans hfind

/-- The transaction of an asset's deletion, for the version the request
read. -/
theorem TxSafe.deleteAsset {userId reportId assetId : Id} {x : ReportAsset} {P : Knows t}
    (hread : ∀ S, P.holds S → Once S fun d => asset? d assetId = some x)
    (hx : x.reportId = reportId) (hchecked : ∀ S, P.holds S → Checked S t reportId)
    (hlive : ∀ S, P.holds S → (t, Req.deleteAsset userId reportId assetId) ∈ S.live)
    (hP : P.holds S) :
    TxSafe (contract cfg start) t (.deleteAsset assetId)
      (fun _ ws S' => Effect cfg t (.deleteAsset assetId) ws S' ∧
        ∃ w ∈ ws, TaskWrite x.storageKey w)
      (do
        upsertCleanupTask x.storageKey .assetDelete
        let _ ← deleteRow (.asset assetId) (onAsset fun a => a.reportId = reportId)
        pure ()) [] S := by
  subst hx
  refine TxSafe.upsertTask fun S₁ w hW₁ hw => ?_
  have hknow : ∀ {S'}, Within (contract cfg start) t (.deleteAsset assetId) S₁ S' → P.holds S' :=
    fun hW => P.lasts (hW₁.trans hW).later hP
  have htask : ∀ {a : Id} {d : Db Row},
      (applyAll [w] d).find? (.asset a) = d.find? (.asset a) := by
    intro a d
    exact find?_applyAll_tasks (fun w' hw' => ⟨_, List.mem_singleton.mp hw' ▸ hw⟩) (by simp)
  refine TxSafe.deleteRow (fun S₂ hS₂ hW₂ hnone => ?_) fun S₂ r hS₂ hW₂ hfind hp => ?_
  · refine TxSafe.pure fun S₃ hS₃ => ?_
    have hP₃ := hknow (hW₂.trans hS₃.within)
    obtain ⟨newer, htr⟩ := hS₃.rely.trace_suffix
    obtain ⟨e, he, hex⟩ := hread _ (hknow hS₂.within)
    have hid := asset?_id hex
    subst hid
    refine ⟨⟨x, w, [], hread _ hP₃, hw, by simp, hchecked _ hP₃, ⟨_, hlive _ hP₃⟩,
      Or.inl ⟨rfl, newer, ⟨t, .statement (.deleteAsset x.id), S₂.toScene⟩, S₂.trace, htr.symm,
        fun y hy hrep => ?_, e, he, hex⟩⟩, w, by simp, hw⟩
    · rw [List.nil_append, htask, asset?_eq_some.mp hy] at hnone
      simp [onAsset, hrep] at hnone
  · refine TxSafe.pure fun S₃ hS₃ => ?_
    have hP₃ := hknow (hW₂.trans hS₃.within)
    obtain ⟨y, rfl, hid⟩ := find?_asset hfind
    have hdiscard := Discards.of_deletion (Db.mem_of_find? hfind)
    rw [hid] at hdiscard
    refine ⟨⟨x, w, _, hread _ hP₃, hw, rfl, hchecked _ hP₃, ⟨_, hlive _ hP₃⟩,
      Or.inr ⟨y, ?_, by simpa [onAsset] using hp, hdiscard⟩⟩, w, by simp, hw⟩
    rw [asset?_eq_some, ← htask (a := assetId) (d := S₃.db), htask]
    refine (hS₃.within.find?_of_writes hdiscard.1).trans ?_
    rw [List.nil_append, htask] at hfind
    exact hfind

/-- A deletion writes the cleanup task with it, and deletes the object behind
its commit. -/
theorem Triple.deleteAsset {userId reportId assetId : Id} (hq : q.ofClient = true)
    (hasked : q = .deleteAsset userId reportId assetId) :
    Keeps (contract cfg start) (Known.serving q : Knows t) (deleteAsset userId reportId assetId) := by
  have hallow : ∀ s : Site, s.working = false → Allows (Known.serving q : Knows t) s :=
    fun s hs => Allows.serving hs hq
  refine Triple.bind (Triple.assertEditableReport hallow) fun _ => ?_
  refine Triple.bind (Triple.read rfl (Allows.and (hallow _ rfl)) (fun _ => rfl)
    fun _ _ hP => (Known.serving q).lasts Later.rollback hP.1) fun asset => ?_
  cases asset with
  | none =>
      have hread : Keeps (contract cfg start) (Known.serving q : Knows t)
          (query (.findAsset assetId) fun d => asset? d assetId) :=
        Keeps.read rfl (hallow _ rfl) fun _ => rfl
      refine Triple.bind (R := fun _ => Known.serving q)
        (hread.conseq (fun _ h => h.1.1) (fun _ _ h => h) fun _ _ h => h) fun foreign => ?_
      split
      next => exact Keeps.throw
      next => exact Keeps.pure
  | some x =>
      refine Triple.bind (R := fun _ => (Known.serving q).and (HasTask x.storageKey)) ?_ fun _ => ?_
      · let K : Knows t := ((Known.serving q).and (Checks reportId)).and
          (Found ((Known.serving q).and (Checks reportId)) (.findAsset assetId)
            fun d => (asset? d assetId).filter (fun a => a.reportId = reportId) = some x)
        have hfound : ∀ S, K.holds S → Once S (fun d => asset? d assetId = some x) ∧
            x.reportId = reportId := by
          intro S hS
          obtain ⟨_, e, he, _, _, hread, _⟩ := hS
          obtain ⟨hx, hrep⟩ := Option.filter_eq_some_iff.mp hread
          exact ⟨⟨e, he, hx⟩, by simpa using hrep⟩
        refine Triple.of_known fun S₀ _ hS₀ => ⟨K, hS₀, ?_⟩
        refine Triple.transaction (fun S hP _ => TxSafe.deleteAsset (fun S hS => (hfound S hS).1)
          (hfound S₀ hS₀).2 (fun S hS => hS.1.2) (fun S hS => hasked ▸ hS.1.1.2) hP)
          (fun _ ws S hP hF => ?_) fun _ _ hP => (Known.serving q).lasts Later.rollback hP.1.1
        obtain ⟨heff, w, hw, htask⟩ := hF
        refine ⟨⟨heff, hallow _ rfl S hP.1.1⟩, Known.serving_commit hP.1.1, ?_⟩
        exact ⟨⟨t, .commit (.deleteAsset assetId) ws, S.toScene⟩, List.mem_cons_self, _, _, rfl,
          w, hw, htask⟩
      · have hcleanup : Keeps (contract cfg start)
            ((Known.serving q : Knows t).and (HasTask x.storageKey))
            (Reports.attemptMany [x.storageKey]) :=
          Keeps.attemptMany (fun k => ⟨Allows.and (hallow _ rfl), Allows.and (hallow _ rfl)⟩)
            fun k hk S hS => List.mem_singleton.mp hk ▸ hS.2
        refine Triple.bind (R := fun _ => Known.serving q) ?_ fun _ => Keeps.pure
        exact (Keeps.attempt hcleanup).conseq (fun _ h => h) (fun _ _ h => h.1) fun _ _ h => h.1

end FastRep.Reports
