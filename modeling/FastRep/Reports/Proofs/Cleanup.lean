/-
Cleanup tasks: who writes them, and that an object is deleted only after
its task was written.

The upsert of a task and one attempt at a cleanup are parts of many requests,
so their rules are stated once: `Triple.writeTask` leaves the task of a key
behind as an entry of the trace, and `Keeps.attemptCleanup` needs one to be
allowed the deletion.
-/
import FastRep.Reports.Proofs.Processing

namespace FastRep.Reports

open FastRep.Txn

variable {cfg : Config} {start : RState} {t : Tid} {s : Site} {C : RContract}
  {S S' : RState} {P : Knows t} {k : StorageKey}

/-- A cleanup task of the key was written. -/
def HasTask (k : StorageKey) : Knows t :=
  .entry fun e => ∃ s ws, e.event = .commit s ws ∧ ∃ w ∈ ws, TaskWrite k w

/-- An update of the task of a key. -/
theorem TaskWrite.update {r : StorageCleanupTask} (h : r.storageKey = k) :
    TaskWrite k (.update (.cleanupTask r)) :=
  ⟨r, h, Or.inr rfl⟩

/-- The upsert writes the task of its key, and nothing else. -/
theorem TxSafe.upsertTask {β : Type} {reason : StorageCleanupReason}
    {F : β → List (Write Row Key) → RState → Prop} {ws : List (Write Row Key)}
    {g : Unit → InTransaction β}
    (h : ∀ S' w, Within C t s S S' → TaskWrite k w → TxSafe C t s F (g ()) (ws ++ [w]) S') :
    TxSafe C t s F (upsertCleanupTask k reason >>= g) ws S := by
  unfold upsertCleanupTask
  refine TxSafe.clock fun S₁ hS₁ => TxSafe.upsertRow (fun S₂ hS₂ hW₂ _ _ _ => ?_)
    fun S₂ x hS₂ hW₂ hx => ?_
  · exact h _ _ (hS₁.within.trans hW₂) ⟨_, rfl, Or.inl rfl⟩
  · have hkey := List.find?_some hx
    simp only [decide_eq_true_eq] at hkey
    cases x with
    | cleanupTask r =>
        cases hkey
        exact h _ _ (hS₁.within.trans hW₂) (TaskWrite.update rfl)
    | _ => cases hkey

/-- A transaction that only writes the task of a key. -/
theorem Triple.writeTask {reason : StorageCleanupReason} {R : Knows t} {E : Error → Knows t}
    (hallow : Allows P s) (hcommit : ∀ S ws, P.holds S → R.holds (S.commit t s ws))
    (heffect : ∀ S w, P.holds S → TaskWrite k w → Effect cfg t s [w] S)
    (hfail : ∀ e S, P.holds S → (E e).holds (S.rollback t s e)) :
    Triple (contract cfg start) P (transaction s (upsertCleanupTask k reason))
      (fun _ => R.and (HasTask k)) E := by
  refine Triple.transaction (F := fun _ ws _ => ∃ w, ws = [w] ∧ TaskWrite k w)
    (fun S _ _ => TxSafe.of_bind_pure (TxSafe.upsertTask fun S' w _ hw =>
      TxSafe.pure fun _ _ => ⟨w, rfl, hw⟩)) ?_ hfail
  rintro _ ws S hP ⟨w, rfl, hw⟩
  refine ⟨⟨heffect S w hP hw, hallow S hP⟩, hcommit S [w] hP, ?_⟩
  exact ⟨⟨t, .commit s [w], S.toScene⟩, List.mem_cons_self, s, [w], rfl, w,
    List.mem_singleton.mpr rfl, hw⟩

/-- The store deleted the object when it answered so. -/
theorem Answered.deleted {u : Unit} (h : (Answered P (.deleteObject k) u).holds S) :
    ∃ e ∈ S.trace, e.tid = t ∧ e.event = .call (.deleteObject k) .done := by
  obtain ⟨e, he, ht, ⟨c, env, hev, hperform⟩, -⟩ := h
  refine ⟨e, he, ht, ?_⟩
  cases c with
  | done => exact hev
  | _ => simp [Services.perform, Call.throws, Call.losable, Call.serve] at hperform

/-- One attempt at a scheduled cleanup: the deletion of the object, and then
its task. -/
theorem Keeps.attemptCleanup (hfinish : Allows P (.finishCleanup k))
    (hdefer : Allows P (.deferCleanup k)) (htask : ∀ S, P.holds S → Tasked S k) :
    Keeps (contract cfg start) P (attempt k) := by
  refine Keeps.catch ?_ fun _ => Keeps.bind Keeps.clock fun now => Keeps.bind ?_
    fun _ => Keeps.pure
  · refine Triple.bind (Triple.call htask) fun u => ?_
    refine Triple.bind (R := fun _ => P) ?_ fun _ => Keeps.pure
    refine Triple.transaction (F := fun _ ws _ => ∀ w ∈ ws, w = .erase (.cleanupTask k))
      (fun S _ _ => TxSafe.of_bind_pure ?_) (fun _ ws S hP hF => ?_)
      fun _ _ hP => P.lasts Later.rollback hP.1
    · refine TxSafe.deleteRow (fun S₁ _ _ _ => ?_) fun S₁ r _ _ hfind _ => ?_
      · exact TxSafe.pure fun _ _ w hw => by cases hw
      · exact TxSafe.pure fun _ _ w hw => deletion_cleanupTask hw
    · exact ⟨⟨⟨hF, Answered.deleted hP.2⟩, hfinish S hP.1⟩, P.lasts (Later.commit rfl) hP.1⟩
  · refine Keeps.transaction (F := fun ws _ => ∀ w ∈ ws, TaskWrite k w) rfl
      (fun S _ => TxSafe.of_bind_pure (TxSafe.updateOrThrow fun S₁ r _ _ hfind _ => ?_))
      fun ws S hP hF => ⟨⟨htask S hP, hF⟩, hdefer S hP⟩
    refine TxSafe.pure fun _ _ w hw => ?_
    cases List.mem_singleton.mp hw
    have hkey := Db.key_of_find? hfind
    cases r with
    | cleanupTask r =>
        cases hkey
        exact TaskWrite.update rfl
    | _ => cases hkey

/-- The attempts at a list of them. -/
theorem Keeps.attemptAll (hallow : ∀ k, Allows P (.finishCleanup k) ∧ Allows P (.deferCleanup k))
    (ks : List StorageKey) (htask : ∀ k ∈ ks, ∀ S, P.holds S → Tasked S k) :
    Keeps (contract cfg start) P (attemptAll ks) := by
  induction ks with
  | nil => exact Keeps.pure
  | cons k ks ih =>
      refine Keeps.bind (Keeps.attempt (Keeps.attemptCleanup (hallow k).1 (hallow k).2
        (htask k List.mem_cons_self))) fun first => ?_
      exact Keeps.bind (ih fun k' hk' => htask k' (List.mem_cons_of_mem _ hk'))
        fun rest => Keeps.pure

theorem Keeps.attemptMany (hallow : ∀ k, Allows P (.finishCleanup k) ∧ Allows P (.deferCleanup k))
    {ks : List StorageKey} (htask : ∀ k ∈ ks, ∀ S, P.holds S → Tasked S k) :
    Keeps (contract cfg start) P (attemptMany ks) :=
  Keeps.bind (Keeps.attemptAll hallow ks htask) fun _ =>
    Keeps.bind Keeps.settle fun _ => Keeps.pure

/-- What was allowed before is allowed with more known. -/
theorem Allows.and {K : Knows t} (h : Allows P s) : Allows (P.and K) s :=
  fun S hS => h S hS.1

end FastRep.Reports
