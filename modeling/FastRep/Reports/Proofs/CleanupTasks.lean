/-
A scheduled cleanup is never forgotten.

A task for a key stays stored until the thread that deleted the object
erases it: no other commit erases tasks (`Effect.erases_task`), and a
deletion is only ever tried for a key that a task was written for.

`Runs.stored_or_finished` is the invariant, for the tasks that were ever
written: a task is stored, or some thread erased it after its call had
deleted the object. A later write of the task stores it again; a deferral
counts the attempt on the row and keeps it.

The tasks come from six writers: an upload that is given up, a run that gives
its file up, the deletions of an asset and of a report, the rollback of a
duplication, and a deferral, which finds a task already written.
-/
import FastRep.Reports.Proofs.AssetObjects

namespace FastRep.Reports

open FastRep.Txn

variable {cfg : Config} {start S S' : RState} {t : Tid} {s : Site} {ws : List (Write Row Key)}
  {k : StorageKey} {d : Db Row}

-- ================================================================== writes

/-- A task that a commit writes is stored after it, unless it also erases it.
-/
theorem isSome_find?_of_task {w : Write Row Key} (hw : w ∈ ws) (htask : TaskWrite k w)
    (hkept : ∀ w ∈ ws, w ≠ .erase (.cleanupTask k)) :
    ((applyAll ws d).find? (.cleanupTask k)).isSome = true := by
  obtain ⟨l, l', rfl⟩ := List.append_of_mem hw
  rw [applyAll_append, applyAll_cons]
  apply isSome_find?_applyAll
  · intro w' hw'
    exact hkept w' (List.mem_append_right _ (List.mem_cons_of_mem _ hw'))
  · obtain ⟨x, rfl, hw⟩ := htask
    have hput : w.apply (applyAll l d) = (applyAll l d).put (Row.cleanupTask x) := by
      rcases hw with rfl | rfl <;> rfl
    have hstored : ((applyAll l d).put (Row.cleanupTask x)).find? (.cleanupTask x.storageKey)
        = some (.cleanupTask x) := Db.find?_put_self _ _
    rw [hput, hstored]
    rfl

/-- A task is erased by a thread that deleted the object. -/
theorem Effect.erases_task (h : Effect cfg t s ws S) (hw : .erase (.cleanupTask k) ∈ ws) :
    s = .finishCleanup k ∧ ∃ e ∈ S.trace, e.tid = t ∧ e.event = .call (.deleteObject k) .done := by
  have htable := h.tables _ hw
  have hwrites : ∀ {k' : StorageKey}, ¬ TaskWrite k' (.erase (.cleanupTask k)) :=
    fun htask => htask.ne_erase rfl
  cases s with
  | enqueueCleanup k' =>
      obtain ⟨w, x, rfl, htask, -⟩ := h
      cases List.mem_singleton.mp hw
      exact absurd htask hwrites
  | scheduleOrphanCleanup k' =>
      obtain ⟨w, _, _, _, _, rfl, htask, -⟩ := h
      cases List.mem_singleton.mp hw
      exact absurd htask hwrites
  | finishCleanup k' =>
      obtain ⟨hall, hdeleted⟩ := h
      cases hall _ hw
      exact ⟨rfl, hdeleted⟩
  | deferCleanup k' => exact absurd (h.2 _ hw) hwrites
  | rollbackDuplicateCopies i =>
      obtain ⟨_, _, _, -, htask⟩ := h.2 _ hw
      exact absurd htask hwrites
  | deleteReport i =>
      obtain ⟨z, side, removal, -, -, -, hside, -, rfl, -, -, -, hremoves⟩ := h
      rcases List.mem_append.mp hw with hw | hw
      · obtain ⟨k', -, htask⟩ := hside _ hw
        exact absurd htask hwrites
      · have hremoved := hremoves.tables _ hw
        simp [Write.target, Key.table] at hremoved
  | deleteAsset a =>
      obtain ⟨x, w, removal, -, htask, rfl, -, -, hremoval⟩ := h
      rcases List.mem_cons.mp hw with rfl | hw
      · exact absurd htask hwrites
      · rcases hremoval with ⟨rfl, -⟩ | ⟨z, -, -, hdiscards⟩
        · cases hw
        · have hdiscarded := hdiscards.tables _ hw
          simp [Write.target, Key.table] at hdiscarded
  | _ => simp [Site.tables, Write.target, Key.table] at htable

-- ================================================================ all runs

/-- The entry erased the task of the key, after its thread had deleted the
object. -/
def Finished (S : RState) (k : StorageKey) : Prop :=
  ∃ newer e older ws, S.trace = newer ++ e :: older ∧ e.event = .commit (.finishCleanup k) ws ∧
    .erase (.cleanupTask k) ∈ ws ∧
    ∃ e' ∈ older, e'.tid = e.tid ∧ e'.event = .call (.deleteObject k) .done

theorem Finished.mono (h : Finished S k) (htr : S.trace <:+ S'.trace) : Finished S' k := by
  obtain ⟨newer, e, older, ws, htrace, hrest⟩ := h
  obtain ⟨l, hl⟩ := htr
  exact ⟨l ++ newer, e, older, ws, by rw [← hl, htrace, List.append_assoc], hrest⟩

/-- A task that was written is stored, or its object was deleted. -/
theorem Runs.stored_or_finished (hstart : Begins start) (h : Runs (contract cfg start) S)
    (htask : Tasked S k) :
    (S.db.find? (.cleanupTask k)).isSome = true ∨ Finished S k := by
  refine h.invariant (I := fun S => Tasked S k →
    (S.db.find? (.cleanupTask k)).isSome = true ∨ Finished S k) ?_ ?_ htask
  · rintro ⟨e, he, -⟩
    rw [show (contract cfg start).start.trace = [] from hstart.trace] at he
    cases he
  · rintro j S S' _ ih hm ⟨e, he, s, ws, hev, w, hw, hwrite⟩
    have hold : e ∈ S.trace → (S.db.find? (.cleanupTask k)).isSome = true ∨ Finished S k :=
      fun he => ih ⟨e, he, s, ws, hev, w, hw, hwrite⟩
    rcases hm.commit_or with ⟨s', ws', hC, -, rfl⟩ | ⟨hdb, htr⟩
    · by_cases herase : .erase (.cleanupTask k) ∈ ws'
      · obtain ⟨rfl, hdeleted⟩ := hC.1.erases_task herase
        exact Or.inr ⟨[], _, S.trace, ws', rfl, rfl, herase, hdeleted⟩
      have hkept : ∀ w ∈ ws', w ≠ .erase (.cleanupTask k) := by
        rintro w hw rfl
        exact herase hw
      rcases List.mem_cons.mp he with rfl | he
      · cases hev
        exact Or.inl (isSome_find?_of_task hw hwrite hkept)
      · rcases hold he with hstored | hfinished
        · exact Or.inl (isSome_find?_applyAll hkept hstored)
        · exact Or.inr (hfinished.mono hm.trace_suffix)
    · have he' : e ∈ S.trace := by
        rcases htr with htr | ⟨ev, hcommit, htr⟩
        · exact htr ▸ he
        · rw [htr] at he
          rcases List.mem_cons.mp he with rfl | he
          · exact absurd hev (hcommit s ws)
          · exact he
      rcases hold he' with hstored | hfinished
      · exact Or.inl (hdb ▸ hstored)
      · exact Or.inr (hfinished.mono hm.trace_suffix)

/-- Every cleanup that was ever scheduled is still stored as a task, or a
thread erased the task after it had deleted the object; and an object is
deleted only after its cleanup was scheduled. -/
theorem cleanup_never_forgotten (cfg : Config) (w : RWorld) (h : Reached cfg w) :
    (∀ k, Tasked w.shared k →
      (∃ x ∈ cleanupTasks w.shared.db, x.storageKey = k) ∨ Finished w.shared k) ∧
    ∀ newer e older k c, w.shared.trace = newer ++ e :: older →
      e.event = .call (.deleteObject k) c → ∃ e' ∈ older, ∃ s ws,
        e'.event = .commit s ws ∧ ∃ wr ∈ ws, TaskWrite k wr := by
  obtain ⟨start, hstart, hruns⟩ := h.runs
  constructor
  · intro k htask
    refine (Runs.stored_or_finished hstart hruns htask).imp_left fun hstored => ?_
    obtain ⟨row, hrow⟩ := Option.isSome_iff_exists.mp hstored
    obtain ⟨hmem, hkey⟩ := (Db.find?_eq_some_iff).mp hrow
    cases row with
    | cleanupTask x =>
        cases hkey
        exact ⟨x, List.mem_filterMap.mpr ⟨_, hmem, rfl⟩, rfl⟩
    | _ => cases hkey
  · intro newer e older k c htr hev
    obtain ⟨S₀, S₁, hpast, rfl⟩ := hruns.at hstart.trace htr
    have hcall := hpast.promised
    rw [hev] at hcall
    exact hcall

/-- The audio asset is deleted, and then its object. -/
def audioDeleted : List (Action Req Choice) :=
  audioConfirmed ++ .spawn 5 (.deleteAsset 1 10 12) :: steps 5 11
    ++ .answer 5 .done :: steps 5 4

/-- The entry deletes the object of the key. -/
def deletesObject (k : StorageKey) (e : REntry) : Bool :=
  match e.event with
  | .call (.deleteObject k') .done => k' = k
  | _ => false

theorem deletesObject_eq {e : REntry} (h : deletesObject k e = true) :
    e.event = .call (.deleteObject k) .done := by
  unfold deletesObject at h
  split at h
  next k' hev =>
      obtain rfl := of_decide_eq_true h
      exact hev
  next => cases h

/-- The object of a deleted asset is deleted on behalf of its task. -/
theorem cleanup_never_forgotten_deleted : ∃ w e, Reached defaults w ∧ e ∈ w.shared.trace ∧
    e.event = .call (.deleteObject audioKey) .done ∧ Tasked w.shared audioKey ∧
    ((∃ x ∈ cleanupTasks w.shared.db, x.storageKey = audioKey) ∨ Finished w.shared audioKey) := by
  have hrun : (sampleWorld.runAll (app defaults) audioDeleted).any (fun w =>
      w.shared.trace.any (deletesObject audioKey)) = true := by
    decide +kernel
  obtain ⟨w, hw, hp⟩ := exists_reached hrun
  obtain ⟨e, he, hdeletes⟩ := List.any_eq_true.mp hp
  have hev := deletesObject_eq hdeletes
  obtain ⟨hkept, hbefore⟩ := cleanup_never_forgotten defaults w hw
  obtain ⟨newer, older, htr⟩ := List.append_of_mem he
  obtain ⟨e', he', s, ws, hev', wr, hwr, htask⟩ := hbefore newer e older _ _ htr hev
  have hmem : e' ∈ w.shared.trace := by
    rw [htr]
    exact List.mem_append_right _ (List.mem_cons_of_mem _ he')
  have htasked : Tasked w.shared audioKey := ⟨e', hmem, s, ws, hev', wr, hwr, htask⟩
  exact ⟨w, e, hw, he, hev, htasked, hkept audioKey htasked⟩

end FastRep.Reports
