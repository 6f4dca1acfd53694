/-
The duplication of a report, whatever the outside makes of it: what a failed
one leaves in the bucket, and what a successful one has created.

# The bucket

`Cleans` is the relation a cleanup keeps: it touches the tasks and objects of
some keys only, deletes objects and makes none, and drops a task only where
its object is gone. Every attempt moves the state so, whatever comes of it,
and so does any number of attempts (`moves_attemptAll`). The rollback first
writes the tasks, so in the end every key it was given has no object or has a
task (`rollback_cleans`).

# The copies

`Copied` lists what a copy with the look at its size can leave under its
destination: nothing, a verified object, or an object its caller knows
nothing of. `Copies` is the same for the loop, with the keys it recorded; the
induction is over the copies still to be made.
-/
import FastRep.Reports.ReportsService
import FastRep.Reports.Proofs.Changes
import FastRep.Reports.Proofs.Confirming
import FastRep.Txn.Proofs.Encounters

namespace FastRep.Reports

open FastRep.Txn

variable {R R' : Rest Row Env} {l : List (Encounter Site Call Choice)} {k k' : StorageKey}
  {ks : List StorageKey} {v : Env}

-- ================================================================ the bucket

/-- The objects without those of a key, looked up. -/
theorem find?_without (objects : List (StorageKey × Bytes)) :
    (objects.filter fun o => o.1 ≠ k).find? (fun o => o.1 = k')
      = if k' = k then none else objects.find? fun o => o.1 = k' := by
  rw [List.find?_filter]
  split
  next h =>
      subst h
      exact List.find?_eq_none.mpr fun o _ => by simp
  next h =>
      congr 1
      funext o
      by_cases ho : o.1 = k' <;> simp [ho, h]

/-- What is stored under a key is there, and nothing else changes. -/
theorem Env.object?_putObject {bytes : Bytes} :
    (v.putObject k bytes).object? k' = if k' = k then some bytes else v.object? k' := by
  unfold Env.object? Env.putObject
  rw [List.find?_cons, find?_without]
  by_cases h : k' = k
  · subst h
    simp
  · have hk : (decide (k = k')) = false := decide_eq_false fun he => h he.symm
    simp only [hk, if_neg h]

/-- What is deleted is gone, and nothing else changes. -/
theorem Env.object?_deleteObject :
    (v.deleteObject k).object? k' = if k' = k then none else v.object? k' := by
  unfold Env.object? Env.deleteObject
  rw [find?_without]
  split
  next => rfl
  next => rfl

/-- A cleanup task of the key is stored. -/
def Scheduled (k : StorageKey) (d : Db Row) : Prop := (d.find? (.cleanupTask k)).isSome = true

/-- A cleanup of some keys: it touches their tasks and objects only, deletes
objects, and drops a task only where the object is gone. -/
structure Cleans (ks : List StorageKey) (R R' : Rest Row Env) : Prop where
  rows : ∀ x : Key, (∀ k ∈ ks, x ≠ .cleanupTask k) → R'.db.find? x = R.db.find? x
  objects : ∀ k, R'.env.object? k = R.env.object? k ∨ k ∈ ks ∧ R'.env.object? k = none
  tasks : ∀ k, Scheduled k R.db → Scheduled k R'.db ∨ R'.env.object? k = none

theorem Cleans.refl (R : Rest Row Env) : Cleans ks R R where
  rows _ _ := rfl
  objects _ := Or.inl rfl
  tasks _ h := Or.inl h

/-- What is gone stays gone. -/
theorem Cleans.gone (h : Cleans ks R R') (hk : R.env.object? k = none) :
    R'.env.object? k = none :=
  (h.objects k).elim (·.trans hk) (·.2)

theorem Cleans.trans {R₁ : Rest Row Env} (h : Cleans ks R R₁) (h' : Cleans ks R₁ R') :
    Cleans ks R R' where
  rows x hx := (h'.rows x hx).trans (h.rows x hx)
  objects k := by
    rcases h'.objects k with hsame | hgone
    · rw [hsame]
      exact h.objects k
    · exact Or.inr hgone
  tasks k hk := by
    rcases h.tasks k hk with hkept | hgone
    · exact h'.tasks k hkept
    · exact Or.inr (h'.gone hgone)

instance : IsPreorder (Rest Row Env) (Cleans ks) where
  refl := Cleans.refl
  trans _ _ _ := Cleans.trans

theorem TaskWrite.ne_erase {w : Write Row Key} {x : Key} (h : TaskWrite k w) : w ≠ .erase x := by
  obtain ⟨task, -, rfl | rfl⟩ := h
  · exact nofun
  · exact nofun

/-- An object of the keys is deleted. -/
theorem Cleans.deleted (hk : k ∈ ks) :
    Cleans ks R { R with env := R.env.deleteObject k } where
  rows _ _ := rfl
  objects k' := by
    by_cases h : k' = k
    · subst h
      exact Or.inr ⟨hk, by simp [Env.object?_deleteObject]⟩
    · exact Or.inl (by simp [Env.object?_deleteObject, h])
  tasks _ h := Or.inl h

theorem Cleans.wrote {ws : List (Write Row Key)} (hws : ∀ w ∈ ws, ∃ k ∈ ks, TaskWrite k w) :
    Cleans ks R { R with db := applyAll ws R.db } where
  rows x hx := find?_applyAll_ne (fun w hw => by
    obtain ⟨k, hk, htask⟩ := hws w hw
    exact htask.target ▸ (hx k hk).symm) _
  objects _ := Or.inl rfl
  tasks k hk := Or.inl (isSome_find?_applyAll (fun w hw => by
    obtain ⟨k', -, htask⟩ := hws w hw
    exact htask.ne_erase) hk)

/-- The task of a key whose object is gone is dropped. -/
theorem Cleans.erased {ws : List (Write Row Key)} (hk : k ∈ ks)
    (hgone : R.env.object? k = none) (hws : ∀ w ∈ ws, w = .erase (.cleanupTask k)) :
    Cleans ks R { R with db := applyAll ws R.db } where
  rows x hx := find?_applyAll_ne (fun w hw => by
    rw [hws w hw]
    exact (hx k hk).symm) _
  objects _ := Or.inl rfl
  tasks k' hk' := by
    by_cases h : k' = k
    · exact Or.inr (h ▸ hgone)
    · refine Or.inl ?_
      unfold Scheduled at hk' ⊢
      rwa [find?_applyAll_ne (fun w hw => by
        rw [hws w hw]
        exact fun he => h (Key.cleanupTask.inj he).symm)]

-- =============================================================== the cleanup

/-- A call that throws its error meets one answer of the service. -/
theorem Meets.of_awaitOk {x : Call} {r : Except Error x.Value}
    (h : (awaitOk x).Meets R l r R') :
    ∃ c n env, Services.perform x c n R.env = some (r, env) ∧ l = [.answered x c] ∧
      R' = { R with env } := by
  rcases h.of_bind with ⟨first, rest, R₁, a, rfl, hawait, hsettle⟩ | ⟨e, hawait, -⟩
  · obtain ⟨c, n, b, env, hperform, rfl, hb, rfl⟩ := hawait.of_await
    obtain ⟨rfl, rfl, rfl⟩ := hsettle.of_settle
    cases hb
    exact ⟨c, n, env, hperform, rfl, rfl⟩
  · obtain ⟨c, n, b, env, -, -, hb, -⟩ := hawait.of_await
    cases hb

/-- A deletion that answers has deleted the object; one that throws may have. -/
theorem perform_deleteObject {c : Choice} {n : Nat} {r : Except Error Unit} {env : Env}
    (h : Services.perform (Call.deleteObject k) c n v = some (r, env)) :
    env = v.deleteObject k ∨ env = v ∧ ∃ e, r = .error e := by
  cases c with
  | done =>
      cases h
      exact Or.inl rfl
  | lost e =>
      cases h
      exact Or.inl rfl
  | failed e =>
      cases h
      exact Or.inr ⟨rfl, e, rfl⟩
  | _ => simp [Services.perform, Call.serve] at h

/-- The task of an object that is gone is dropped. -/
theorem cleans_finish {r : Except Error Nat} (hk : k ∈ ks) (hgone : R.env.object? k = none)
    (h : (transaction (.finishCleanup k) (deleteRow (.cleanupTask k) fun _ => true) :
      Async Nat).Meets R l r R') : Cleans ks R R' := by
  rcases h.of_tx with ⟨n, b, hb, -, -, rfl⟩ | ⟨n, e, -, -, -, rfl⟩ | ⟨e, -, -, rfl⟩
  · have hends : TxEnds n R.db (fun _ ws => ∀ w ∈ ws, w = .erase (.cleanupTask k))
        (deleteRow (.cleanupTask k) fun _ => true : InTransaction Nat) [] :=
      TxEnds.of_bind_pure (TxEnds.deleteRow (TxEnds.pure fun w hw => by cases hw)
        (TxEnds.pure fun w hw => deletion_cleanupTask hw))
    exact Cleans.erased hk hgone (hends.run hb)
  · exact Cleans.refl _
  · exact Cleans.refl _

/-- One attempt at a cleanup, whatever comes of it. -/
theorem moves_attempt (hk : k ∈ ks) : (attempt k).Moves (Cleans ks) := by
  refine Prog.Moves.handle ?_ (fun _ => Prog.Moves.pure) fun _ => ?_
  · intro R l r R' h
    rcases h.of_bind with ⟨first, rest, R₁, u, -, hdelete, hfinish⟩ | ⟨e, hdelete, -⟩
    · obtain ⟨c, n, env, hperform, -, rfl⟩ := Meets.of_awaitOk hdelete
      obtain rfl | ⟨-, e, he⟩ := perform_deleteObject hperform
      · have hgone : (R.env.deleteObject k).object? k = none := by
          rw [Env.object?_deleteObject, if_pos rfl]
        refine (Cleans.deleted hk).trans ?_
        rcases hfinish.of_bind with ⟨first, rest, R₂, count, -, htx, hpure⟩ | ⟨e, htx, -⟩
        · obtain ⟨-, -, rfl⟩ := hpure.of_pure
          exact cleans_finish hk hgone htx
        · exact cleans_finish hk hgone htx
      · cases he
    · obtain ⟨c, n, env, hperform, -, rfl⟩ := Meets.of_awaitOk hdelete
      obtain rfl | ⟨rfl, -⟩ := perform_deleteObject hperform
      · exact Cleans.deleted hk
      · exact Cleans.refl R
  · refine Prog.Moves.bind Prog.Moves.clock fun now => ?_
    refine Prog.Moves.bind ?_ fun _ => Prog.Moves.pure
    refine Prog.Moves.tx fun R n b hb => ?_
    have hends : TxEnds n R.db (fun _ ws => ∀ w ∈ ws, ∃ k ∈ ks, TaskWrite k w)
        (updateOrThrow (.cleanupTask k) (setCleanupTask fun r =>
          { r with attemptCount := r.attemptCount + 1, lastAttemptAt := some now }) :
          InTransaction Unit) [] := by
      refine TxEnds.of_bind_pure (TxEnds.updateOrThrow fun r hfind _ => TxEnds.pure fun w hw => ?_)
      obtain rfl := List.mem_singleton.mp hw
      obtain ⟨task, rfl, rfl⟩ := exists_cleanupTask (Db.key_of_find? hfind)
      exact ⟨_, hk, TaskWrite.update rfl⟩
    exact Cleans.wrote (hends.run hb)

/-- Attempts at the keys are a cleanup. -/
theorem moves_attemptAll {keys : List StorageKey} (hkeys : ∀ k ∈ keys, k ∈ ks) :
    (attemptAll keys).Moves (Cleans ks) := by
  induction keys with
  | nil => exact Prog.Moves.pure
  | cons k keys ih =>
      refine Prog.Moves.bind ?_ fun first => ?_
      · exact Prog.Moves.handle (moves_attempt (hkeys k List.mem_cons_self))
          (fun _ => Prog.Moves.pure) fun _ => Prog.Moves.pure
      · exact Prog.Moves.bind
          (ih fun k' hk' => hkeys k' (List.mem_cons_of_mem _ hk'))
          fun rest => Prog.Moves.pure

/-- All attempts at a cleanup. -/
theorem moves_attemptMany : (attemptMany ks).Moves (Cleans ks) :=
  Prog.Moves.bind (moves_attemptAll fun _ hk => hk) fun _ =>
    Prog.Moves.bind Prog.Moves.settle fun _ =>
      Prog.Moves.pure

-- ============================================================== the rollback

/-- Tasks can always be written. -/
theorem createCleanupTasks_yields (reason : StorageCleanupReason) (keys : List StorageKey) (n : Nat)
    (d : Db Row) : ∃ ws, (createCleanupTasks reason keys).Yields n d () ws := by
  induction keys generalizing d with
  | nil => exact ⟨[], Tx.Yields.pure⟩
  | cons k keys ih =>
      cases hfind : d.rows.find? fun r => decide (key r = Key.cleanupTask k) with
      | some r =>
          obtain ⟨ws, hrest⟩ := ih (d.put r)
          exact ⟨_, Tx.Yields.clock (Tx.Yields.upsertRow_update hfind hrest)⟩
      | none =>
          have hnew : d.find? (Key.cleanupTask k) = none :=
            Db.find?_eq_none_iff.mpr fun r hr => by simpa using List.find?_eq_none.mp hfind r hr
          obtain ⟨ws, hrest⟩ := ih (d.put (.cleanupTask ⟨k, reason, 0, none, n⟩))
          exact ⟨_, Tx.Yields.clock (Tx.Yields.upsertRow_insert hfind hnew violation_cleanupTask
            hrest)⟩

/-- Writes that store a row and erase none leave the row stored. -/
theorem scheduled_of_write {ws : List (Write Row Key)} {w : Write Row Key} {d : Db Row}
    (hw : w ∈ ws) (htask : TaskWrite k w) (hws : ∀ w ∈ ws, ∃ k, TaskWrite k w) :
    Scheduled k (applyAll ws d) := by
  obtain ⟨before, after, rfl⟩ := List.append_of_mem hw
  rw [applyAll_append]
  show ((applyAll after (w.apply (applyAll before d))).find? (.cleanupTask k)).isSome = true
  refine isSome_find?_applyAll (fun w' hw' => ?_) ?_
  · obtain ⟨k', hk'⟩ := hws w' (by simp [hw'])
    exact hk'.ne_erase
  · obtain ⟨task, rfl, rfl | rfl⟩ := htask
    all_goals exact Option.isSome_iff_exists.mpr ⟨_, Db.find?_put_self _ (Row.cleanupTask task)⟩

/-- The tasks are created unless the database refuses. -/
theorem of_createTasks {s : Site} {reason : StorageCleanupReason} {f : Unit → Async Unit}
    {r : Except Error Unit}
    (h : (transaction s (createCleanupTasks reason ks) >>= f).Meets R l r R')
    (hscheduled : ∀ e, .refused s e ∉ l) :
    ∃ ws rest, (∀ w ∈ ws, ∃ k ∈ ks, TaskWrite k w) ∧ (∀ k ∈ ks, ∃ w ∈ ws, TaskWrite k w) ∧
      (f ()).Meets { R with db := applyAll ws R.db } rest r R' := by
  have hcreates : ∀ n, ∃ ws, (createCleanupTasks reason ks).Yields n R.db () ws ∧
      (∀ w ∈ ws, ∃ k ∈ ks, TaskWrite k w) ∧ ∀ k ∈ ks, ∃ w ∈ ws, TaskWrite k w := by
    intro n
    obtain ⟨ws, hyields⟩ := createCleanupTasks_yields reason ks n R.db
    obtain ⟨side, hside, hall, hevery⟩ := (@TxEnds.createCleanupTasks n R.db [] reason ks).run
      hyields.result
    rw [hyields.writes, List.nil_append] at hside
    exact ⟨ws, hyields, hside ▸ hall, hside ▸ hevery⟩
  rcases h.of_bind with ⟨first, rest, R₁, u, rfl, htx, hrest⟩ | ⟨e, htx, -⟩
  · rcases htx.of_tx with ⟨n, b, -, -, -, rfl⟩ | ⟨n, e, -, -, he, -⟩ | ⟨e, -, he, -⟩
    · obtain ⟨ws, hyields, hall, hevery⟩ := hcreates n
      rw [hyields.writes] at hrest
      exact ⟨ws, rest, hall, hevery, hrest⟩
    · cases he
    · cases he
  · rcases htx.of_tx with ⟨n, b, -, -, hb, -⟩ | ⟨n, e', he', -, -, -⟩ | ⟨e', rfl, -, -⟩
    · cases hb
    · obtain ⟨ws, hyields, -⟩ := hcreates n
      cases hyields.result.symm.trans he'
    · exact absurd List.mem_cons_self (hscheduled e')

/-- The rollback leaves every key it is given without an object or with a
task. -/
theorem rollback_cleans {duplicateId : Id} {r : Except Error Unit}
    (h : (rollbackDuplicateCopies duplicateId ks).Meets R l r R')
    (hscheduled : ∀ e, .refused (.rollbackDuplicateCopies duplicateId) e ∉ l) :
    r = .ok () ∧ Cleans ks R R' ∧ ∀ k ∈ ks, Scheduled k R'.db ∨ R'.env.object? k = none := by
  unfold rollbackDuplicateCopies at h
  split at h
  next hempty =>
      obtain ⟨-, rfl, rfl⟩ := h.of_pure
      exact ⟨rfl, Cleans.refl _, by simp [hempty]⟩
  next =>
      have hbody : ∃ first r', r = .ok () ∧ (∀ x ∈ first, x ∈ l) ∧
          (transaction (Site.rollbackDuplicateCopies duplicateId)
            (createCleanupTasks .duplicateRollback ks) >>= fun _ => attemptMany ks).Meets
          R first r' R' := by
        obtain ⟨first, rest, R₁, rfl, ⟨a, hbody, hpure⟩ | ⟨e, hbody, hpure⟩⟩ := h.of_handle
        · obtain ⟨-, hr, rfl⟩ := hpure.of_pure
          exact ⟨first, _, hr, fun _ => List.mem_append_left _, hbody⟩
        · obtain ⟨-, hr, rfl⟩ := hpure.of_pure
          exact ⟨first, _, hr, fun _ => List.mem_append_left _, hbody⟩
      obtain ⟨first, r', hr, hfirst, hbody⟩ := hbody
      obtain ⟨ws, rest, hall, hevery, hattempts⟩ := of_createTasks hbody
        fun e he => hscheduled e (hfirst _ he)
      have hcleans := moves_attemptMany _ _ _ _ hattempts
      refine ⟨hr, (Cleans.wrote hall).trans hcleans, fun k hk => ?_⟩
      obtain ⟨w, hw, htask⟩ := hevery k hk
      refine hcleans.tasks k (scheduled_of_write hw htask fun w' hw' => ?_)
      obtain ⟨k', -, htask'⟩ := hall w' hw'
      exact ⟨k', htask'⟩

-- ================================================================ the copies

/-- A copy that took effect and was not verified: the answer was lost, or the
HEAD after it failed. -/
def Unverified : Encounter Site Call Choice → Prop
  | .answered (.copyObject _ _) (.lost _) => True
  | .answered (.headObject _) (.failed _) => True
  | _ => False

/-- A copy is made, perhaps without its caller being told, or fails and leaves
nothing. -/
theorem perform_copyObject {source destination : StorageKey} {c : Choice} {n : Nat}
    {r : Except Error Unit} {env : Env}
    (h : Services.perform (Call.copyObject source destination) c n v = some (r, env)) :
    (∃ bytes, env = v.putObject destination bytes ∧
      (c = .done ∧ r = .ok () ∨ ∃ e e', c = .lost e ∧ r = .error e')) ∨
    ∃ e e', c = .failed e ∧ r = .error e' ∧ env = v := by
  cases c with
  | done =>
      simp only [Services.perform, Call.serve] at h
      cases hsource : v.object? source with
      | none =>
          rw [hsource] at h
          cases h
      | some bytes =>
          rw [hsource] at h
          cases h
          exact Or.inl ⟨bytes, rfl, Or.inl ⟨rfl, rfl⟩⟩
  | lost e =>
      simp only [Services.perform, Call.serve, Call.losable, if_true] at h
      cases hsource : v.object? source with
      | none =>
          rw [hsource] at h
          cases h
      | some bytes =>
          rw [hsource] at h
          cases h
          exact Or.inl ⟨bytes, rfl, Or.inr ⟨e, e, rfl, rfl⟩⟩
  | failed e =>
      cases h
      exact Or.inr ⟨e, e, rfl, rfl, rfl⟩
  | _ => simp [Services.perform, Call.serve] at h

/-- A look at the object is answered with its size, or fails. -/
theorem perform_headObject {c : Choice} {n : Nat} {r : Except Error (Option Nat)} {env : Env}
    (h : Services.perform (Call.headObject k) c n v = some (r, env)) :
    env = v ∧ (c = .done ∧ r = .ok ((v.object? k).map List.length) ∨
      ∃ e e', c = .failed e ∧ r = .error e') := by
  cases c with
  | done =>
      cases h
      exact ⟨rfl, Or.inl ⟨rfl, rfl⟩⟩
  | failed e =>
      cases h
      exact ⟨rfl, Or.inr ⟨e, e, rfl, rfl⟩⟩
  | _ => simp [Services.perform, Call.serve, Call.losable] at h

/-- What a copy leaves under its destination. -/
inductive Copied (d : StorageKey) (l : List (Encounter Site Call Choice)) (R R' : Rest Row Env) :
    Except Error Nat → Prop
  | verified (bytes : Bytes) (hstored : R'.env.object? d = some bytes)
      (hl : ∀ x ∈ l, ¬ Unverified x) : Copied d l R R' (.ok bytes.length)
  | failed (e : Error) (henv : R'.env = R.env) (hl : ∀ x ∈ l, ¬ Unverified x) :
      Copied d l R R' (.error e)
  | unverified (e : Error) (hstored : R'.env.object? d ≠ none) (hl : ∃ x ∈ l, Unverified x) :
      Copied d l R R' (.error e)

/-- A copy with the look at its size: what it leaves, and what it is told. -/
theorem copied_copyObject {source d : StorageKey} {r : Except Error Nat}
    (h : (copyObject source d).Meets R l r R') :
    Copied d l R R' r ∧ R'.db = R.db ∧ ∀ k, k ≠ d → R'.env.object? k = R.env.object? k := by
  have hput : ∀ {bytes : Bytes}, (R.env.putObject d bytes).object? d = some bytes := by
    intro bytes
    rw [Env.object?_putObject, if_pos rfl]
  have hother : ∀ {bytes : Bytes} k, k ≠ d →
      (R.env.putObject d bytes).object? k = R.env.object? k := by
    intro bytes k hk
    rw [Env.object?_putObject, if_neg hk]
  rcases h.of_bind with ⟨first, rest, R₁, u, rfl, hcopy, hverify⟩ | ⟨e, hcopy, rfl⟩
  · obtain ⟨c, n, env, hperform, rfl, rfl⟩ := Meets.of_awaitOk hcopy
    obtain ⟨bytes, rfl, ⟨rfl, -⟩ | ⟨e, e', -, he⟩⟩ | ⟨e, e', -, he, -⟩ := perform_copyObject hperform
    · rcases hverify.of_bind with ⟨first, rest, R₂, metadata, rfl, hhead, hlast⟩ | ⟨e, hhead, rfl⟩
      · obtain ⟨c, n, env, hperform', rfl, rfl⟩ := Meets.of_awaitOk hhead
        obtain ⟨rfl, ⟨rfl, hr⟩ | ⟨e, e', -, he⟩⟩ := perform_headObject hperform'
        · rw [hput] at hr
          cases hr
          obtain ⟨rfl, rfl, rfl⟩ := hlast.of_pure
          refine ⟨.verified bytes hput ?_, rfl, hother⟩
          simp [Unverified]
        · cases he
      · obtain ⟨c, n, env, hperform', rfl, rfl⟩ := Meets.of_awaitOk hhead
        obtain ⟨rfl, ⟨-, hr⟩ | ⟨e', e'', rfl, -⟩⟩ := perform_headObject hperform'
        · cases hr
        · refine ⟨.unverified e ?_ ?_, rfl, hother⟩
          · rw [hput]
            exact nofun
          · exact ⟨.answered (.headObject d) (.failed e'), by simp, trivial⟩
    · cases he
    · cases he
  · obtain ⟨c, n, env, hperform, rfl, rfl⟩ := Meets.of_awaitOk hcopy
    obtain ⟨bytes, rfl, ⟨-, he⟩ | ⟨e', e'', rfl, -⟩⟩ | ⟨e', e'', rfl, -, rfl⟩ :=
      perform_copyObject hperform
    · cases he
    · refine ⟨.unverified e ?_ ⟨_, List.mem_singleton_self _, trivial⟩, rfl, hother⟩
      rw [hput]
      exact nofun
    · exact ⟨.failed e rfl (by simp [Unverified]), rfl, fun _ _ => rfl⟩

/-- The keys under which a duplication stores its copies. -/
def destinations (copies : List AssetCopy) : List StorageKey := copies.map (·.storageKey)

/-- What the loop over some copies leaves, when it has recorded some keys. -/
structure Copies (copies : List AssetCopy) (l : List (Encounter Site Call Choice))
    (R R' : Rest Row Env) (keys : List StorageKey) (result : Except Error Unit) : Prop where
  db : R'.db = R.db
  known : ∀ k ∈ keys, k ∈ destinations copies
  other : ∀ k, k ∉ destinations copies → R'.env.object? k = R.env.object? k
  recorded : (∀ x ∈ l, ¬ Unverified x) → ∀ k, k ∉ keys → R'.env.object? k = R.env.object? k
  unrecorded : (∃ x ∈ l, Unverified x) →
    ∃ k ∈ destinations copies, k ∉ keys ∧ R'.env.object? k ≠ none
  complete : result = .ok () → (∀ x ∈ l, ¬ Unverified x) ∧
    ∀ c ∈ copies, ∃ bytes, R'.env.object? c.storageKey = some bytes ∧
      bytes.length = c.source.verifiedSize.getD c.source.declaredSize

/-- One more copy, verified before the others. -/
theorem Copies.cons {R₁ : Rest Row Env} {first : List (Encounter Site Call Choice)} {c : AssetCopy}
    {rest : List AssetCopy} {keys : List StorageKey} {result : Except Error Unit} {bytes : Bytes}
    (h : Copies rest l R₁ R' keys result) (hnew : c.storageKey ∉ destinations rest)
    (hfirst : ∀ x ∈ first, ¬ Unverified x) (hdb : R₁.db = R.db)
    (hother : ∀ k, k ≠ c.storageKey → R₁.env.object? k = R.env.object? k)
    (hstored : R₁.env.object? c.storageKey = some bytes)
    (hsize : bytes.length = c.source.verifiedSize.getD c.source.declaredSize) :
    Copies (c :: rest) (first ++ l) R R' (c.storageKey :: keys) result where
  db := h.db.trans hdb
  known k hk := by
    rcases List.mem_cons.mp hk with rfl | hk
    · exact List.mem_cons_self
    · exact List.mem_cons_of_mem _ (h.known k hk)
  other k hk := by
    rw [h.other k fun hmem => hk (List.mem_cons_of_mem _ hmem)]
    exact hother k fun he => hk (he ▸ List.mem_cons_self)
  recorded hnone k hk := by
    rw [h.recorded (fun x hx => hnone x (List.mem_append_right _ hx)) k
      fun hmem => hk (List.mem_cons_of_mem _ hmem)]
    exact hother k fun he => hk (he ▸ List.mem_cons_self)
  unrecorded := by
    rintro ⟨x, hx, hunverified⟩
    rcases List.mem_append.mp hx with hx | hx
    · exact absurd hunverified (hfirst x hx)
    · obtain ⟨k, hk, hkeys, hleft⟩ := h.unrecorded ⟨x, hx, hunverified⟩
      refine ⟨k, List.mem_cons_of_mem _ hk, fun hmem => ?_, hleft⟩
      rcases List.mem_cons.mp hmem with rfl | hmem
      · exact hnew hk
      · exact hkeys hmem
  complete hresult := by
    obtain ⟨hnone, hall⟩ := h.complete hresult
    refine ⟨fun x hx => (List.mem_append.mp hx).elim (hfirst x) (hnone x), fun c' hc' => ?_⟩
    rcases List.mem_cons.mp hc' with rfl | hc'
    · exact ⟨bytes, (h.other _ hnew).trans hstored, hsize⟩
    · exact hall c' hc'

/-- The loop over the copies: what it leaves, and which keys it records. -/
theorem copies_copyAssets {copies : List AssetCopy} (hnodup : (destinations copies).Nodup)
    {r : Except Error (List StorageKey × Except Error Unit)}
    (h : (copyAssets copies).Meets R l r R') :
    ∃ keys result, r = .ok (keys, result) ∧ Copies copies l R R' keys result := by
  induction copies generalizing R R' l r with
  | nil =>
      obtain ⟨rfl, hr, rfl⟩ := h.of_pure
      exact ⟨[], .ok (), hr, ⟨rfl, by simp, fun _ _ => rfl, fun _ _ _ => rfl, by simp, by simp⟩⟩
  | cons c rest ih =>
      obtain ⟨hnew, hnodup⟩ := List.nodup_cons.mp hnodup
      rcases h.of_bind with ⟨first, later, R₁, copied, rfl, hcopy, hlater⟩ | ⟨e, hcopy, -⟩
      case inr => obtain ⟨a, ha, -⟩ := hcopy.of_attempt; cases ha
      obtain ⟨a, ha, hcopy⟩ := hcopy.of_attempt
      cases ha
      obtain ⟨hcopied, hdb, hother⟩ := copied_copyObject hcopy
      have houtside : ∀ k, k ∉ destinations (c :: rest) → R₁.env.object? k = R.env.object? k :=
        fun k hk => hother k fun he => hk (he ▸ List.mem_cons_self)
      cases hcopied with
      | failed e henv hl =>
          obtain ⟨rfl, hr, rfl⟩ := hlater.of_pure
          rw [List.append_nil]
          refine ⟨[], .error e, hr, ⟨hdb, by simp, houtside, fun _ k _ => by rw [henv], ?_, fun h => by cases h⟩⟩
          rintro ⟨x, hx, hunverified⟩
          exact absurd hunverified (hl x hx)
      | unverified e hstored hl =>
          obtain ⟨rfl, hr, rfl⟩ := hlater.of_pure
          rw [List.append_nil]
          obtain ⟨x, hx, hunverified⟩ := hl
          refine ⟨[], .error e, hr, ⟨hdb, by simp, houtside, fun hnone => absurd hunverified (hnone x hx),
            fun _ => ⟨c.storageKey, List.mem_cons_self, by simp, hstored⟩, fun h => by cases h⟩⟩
      | verified bytes hstored hl =>
          dsimp only at hlater
          split at hlater
          next hsize =>
              obtain ⟨rfl, hr, rfl⟩ := hlater.of_pure
              rw [List.append_nil]
              refine ⟨_, _, hr, ⟨hdb, ?_, houtside, fun _ k hk => hother k ?_, ?_, fun h => by cases h⟩⟩
              · exact fun k hk => List.mem_singleton.mp hk ▸ List.mem_cons_self
              · exact fun he => hk (he ▸ List.mem_cons_self)
              · rintro ⟨x, hx, hunverified⟩
                exact absurd hunverified (hl x hx)
          next hsize =>
              have hsame : bytes.length = c.source.verifiedSize.getD c.source.declaredSize :=
                not_not.mp hsize
              rcases hlater.of_bind with ⟨second, last, R₂, others, rfl, hrest, hlast⟩ |
                ⟨e, hrest, -⟩
              case inr =>
                obtain ⟨keys, result, hr, -⟩ := ih hnodup hrest
                cases hr
              obtain ⟨keys, result, hr, hcopies⟩ := ih hnodup hrest
              cases hr
              obtain ⟨rfl, hr, rfl⟩ := hlast.of_pure
              rw [List.append_nil]
              exact ⟨_, _, hr, hcopies.cons hnew hl hdb hother hstored hsame⟩

end FastRep.Reports
