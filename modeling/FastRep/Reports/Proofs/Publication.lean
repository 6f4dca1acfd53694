/-
An uploaded report file is published or scheduled for cleanup, and never
both.

The key of an output names the token of the run that uploaded it, and a
token is drawn by one thread. So whoever writes an output row with the
key, or schedules the cleanup of the key, is one and the same run, and a
run that has given its upload up does not publish it, nor the other way
round (`Runs.untouched`). A report deletion schedules the keys of the rows
it removes. What a run leaves when it ends is its contract
(`Finishes`), and a published row stays until its report is deleted
(`Runs.published_kept`).

# The parts

- Every stored output was published by a commit of the trace
  (`Runs.published`), and outputs with one key are one.
- A cleanup task of an output key is written by its run, which is then done
  with it, or by the deletion of its report (`Effect.task`,
  `Runs.tasked_resolved`).
- An output leaves the database with its report, which schedules its key, or
  with a compensation, which does not: `SparedByCompensation` keeps the last
  one out.

A run that stored an object and ends has published it, scheduled it, or
throws the error with which the scheduling failed
(`published_or_scheduled`).
-/
import FastRep.Reports.Proofs.ResultChanges
import FastRep.Reports.Proofs.Lifecycle
import FastRep.Reports.Proofs.Uploading
import FastRep.Reports.Proofs.Reached

namespace FastRep.Reports

open FastRep.Txn

variable {cfg : Config} {start S S' : RState} {t : Tid} {s : Site} {ws : List (Write Row Key)}
  {w : RWorld} {g tok : Id} {k : StorageKey} {o : ReportOutput}

-- ================================================================ origins

/-- What was once true of the committed database was true of it in a state
of the run. -/
theorem Runs.once (hstart : Begins start) (h : Runs (contract cfg start) S)
    {p : Db Row → Prop} (hp : Once S p) :
    ∃ S₀, Runs (contract cfg start) S₀ ∧ S₀.trace <:+ S.trace ∧ p S₀.db := by
  obtain ⟨e, he, hp⟩ := hp
  obtain ⟨S₀, S₁, hpast⟩ := Runs.since hstart.trace h he
  exact ⟨S₀, hpast.runs, (List.suffix_cons _ _).trans hpast.suffix, hpast.scene ▸ hp⟩

/-- An asset is stored under a key of its own. -/
theorem Runs.asset_key (hstart : Begins start) (h : Runs (contract cfg start) S) :
    ∀ a x, asset? S.db a = some x → ∃ u n, x.storageKey = .asset u x.reportId x.id n := by
  refine h.invariant (I := fun S => ∀ a x, asset? S.db a = some x →
    ∃ u n, x.storageKey = .asset u x.reportId x.id n) ?_ ?_
  · intro a x hx
    rw [show (contract cfg start).start.db = start.db from rfl, asset?_eq_none.mpr
      (hstart.unused.find?_eq_none (by simp [Key.table]) (by simp [Key.table]))] at hx
    cases hx
  · intro j S S' _ ih hm a y hy
    rcases hm.commit_or with ⟨s, ws, hC, -, rfl⟩ | ⟨hdb, -⟩
    · have hafter : asset? (applyAll ws S.db) a = some y := hy
      cases hbefore : asset? S.db a with
      | some x =>
          obtain ⟨u, n, hkey⟩ := ih a x hbefore
          have hsame := hC.1.upload hbefore hafter
          refine ⟨u, n, ?_⟩
          rw [hsame.storageKey, hkey, hsame.reportId, hsame.id]
      | none =>
          rcases hC.1.asset a with hsame | hchange
          · rw [hsame, hbefore] at hafter
            cases hafter
          · rw [hbefore, hafter] at hchange
            cases hchange with
            | created x hreserving =>
                obtain ⟨x', r, u, n, now, hws, hid, -, -, -, -, hkey, -⟩ := hreserving
                cases hws
                exact ⟨u, n, hid ▸ hkey⟩
            | copied i u _ _ _ _ _ hkey =>
                obtain ⟨n, hkey⟩ := hkey
                exact ⟨u, n, hkey⟩
    · exact ih a y (hdb ▸ hy)

/-- The entry is the commit that published the output. -/
def PublishedBy (S : RState) (e : REntry) (o : ReportOutput) : Prop :=
  ∃ tok ws u, e.event = .commit (.finalizeSuccess o.generationId tok) ws ∧
    tok ∈ S.ids e.tid ∧ o.storageKey = .output u o.reportId o.generationId tok ∧
    ∃ x, generation? e.before.db o.generationId = some x ∧ x.reportId = o.reportId

theorem PublishedBy.mono {e : REntry} (h : PublishedBy S e o) (htr : S.trace <:+ S'.trace) :
    PublishedBy S' e o := by
  obtain ⟨tok, ws, u, hev, htok, hrest⟩ := h
  exact ⟨tok, ws, u, hev, Shared.mem_ids_of_suffix htr htok, hrest⟩

/-- Whoever may commit a success owns the token. -/
theorem RunSite.finalizing (h : RunSite S t (.finalizeSuccess g tok)) :
    Working S t g tok := by
  obtain ⟨g', tok', hown, hworking⟩ := h.working rfl
  simp only [Site.ofRun, Bool.and_eq_true, decide_eq_true_eq] at hown
  obtain ⟨rfl, rfl⟩ := hown
  exact hworking

/-- Every stored output was published by a commit of the trace. -/
theorem Runs.published (hstart : Begins start) (h : Runs (contract cfg start) S) :
    ∀ o ∈ outputs S.db, ∃ e ∈ S.trace, PublishedBy S e o := by
  refine h.invariant (I := fun S => ∀ o ∈ outputs S.db, ∃ e ∈ S.trace, PublishedBy S e o) ?_ ?_
  · intro o ho
    rw [mem_outputs, show (contract cfg start).start.db = start.db from rfl, output?_eq_none.mpr
      (hstart.unused.find?_eq_none (by simp [Key.table]) (by simp [Key.table]))] at ho
    cases ho
  · intro j S S' hruns ih hm o ho
    have hold : o ∈ outputs S.db → ∃ e ∈ S'.trace, PublishedBy S' e o := fun ho => by
      obtain ⟨e, he, hpub⟩ := ih o ho
      exact ⟨e, hm.trace_suffix.subset he, hpub.mono hm.trace_suffix⟩
    rcases hm.commit_or with ⟨s, ws, hC, -, rfl⟩ | ⟨hdb, -⟩
    · have hafter : output? (applyAll ws S.db) o.generationId = some o := mem_outputs.mp ho
      rcases hC.1.output o.generationId with hsame | hchange
      · exact hold (mem_outputs.mpr (hsame ▸ hafter))
      · rw [hafter] at hchange
        generalize output? S.db o.generationId = before at hchange
        cases hchange with
        | published tok x _ u hx _ _ hkey honce =>
            obtain ⟨e, he, y, hy, hrep⟩ := honce
            have hids : tok ∈ S.ids j := by
              rw [hC.2.finalizing.ids]
              exact List.mem_singleton.mpr rfl
            exact ⟨_, List.mem_cons_self, tok, ws, u, rfl, hids, hkey, x, hx,
              ((hruns.persists (lasting_generation hstart _)).same e he y x hy hx).reportId.trans hrep⟩
    · exact hold (hdb ▸ ho)

/-- Outputs with one key are one. -/
theorem Runs.output_eq (hstart : Begins start) (h : Runs (contract cfg start) S)
    {o' : ReportOutput} (ho : o ∈ outputs S.db) (ho' : o' ∈ outputs S.db)
    (hkey : o'.storageKey = o.storageKey) : o' = o := by
  obtain ⟨_, -, _, _, _, -, -, hk, -⟩ := Runs.published hstart h o ho
  obtain ⟨_, -, _, _, _, -, -, hk', -⟩ := Runs.published hstart h o' ho'
  rw [hk, hk', StorageKey.output.injEq] at hkey
  have hfind := mem_outputs.mp ho'
  rw [hkey.2.2.1, mem_outputs.mp ho] at hfind
  exact (Option.some.inj hfind).symm

-- ========================================================== cleanup tasks

/-- The commits that write a cleanup task, with why they do. -/
theorem Effect.task (h : Effect cfg t s ws S) {w : Write Row Key} (hw : w ∈ ws)
    (htask : TaskWrite k w) :
    (∃ x : ReportAsset, Once S (fun d => asset? d x.id = some x) ∧ x.storageKey = k) ∨
    (s = .scheduleOrphanCleanup k ∧ ∃ u r g tok, k = .output u r g tok ∧ S.ids t = [tok] ∧
      ∀ s ∈ marks S t, s.settles = false) ∨
    (s = .deferCleanup k ∧ Tasked S k) ∨
    (∃ i, s = .deleteReport i ∧ k ∈ storageKeysOf i S.db) ∨
    ∃ u i a n, s = .rollbackDuplicateCopies i ∧ k = .asset u i a n ∧ a ∈ S.ids t ∧
      marks S t = [] := by
  have hkey : ∀ {k' : StorageKey}, TaskWrite k' w → k' = k := fun htask' => by
    have htarget := htask'.target.symm.trans htask.target
    exact Key.cleanupTask.inj htarget
  have htable := h.tables w hw
  rw [htask.table] at htable
  cases s with
  | enqueueCleanup k' =>
      obtain ⟨w', x, rfl, htask', honce, hx, -⟩ := h
      cases List.mem_singleton.mp hw
      exact Or.inl ⟨x, honce, hx.trans (hkey htask')⟩
  | scheduleOrphanCleanup k' =>
      obtain ⟨w', u, r, g, tok, rfl, htask', hk, hids, hquiet⟩ := h
      cases List.mem_singleton.mp hw
      obtain rfl := hkey htask'
      exact Or.inr (Or.inl ⟨rfl, u, r, g, tok, hk, hids, hquiet⟩)
  | finishCleanup k' =>
      obtain ⟨r, -, rfl | rfl⟩ := htask <;> cases h.1 _ hw
  | deferCleanup k' =>
      obtain rfl := hkey (h.2 w hw)
      exact Or.inr (Or.inr (Or.inl ⟨rfl, h.1⟩))
  | deleteReport i =>
      obtain ⟨r, side, removal, -, -, -, hside, -, rfl, -, -, -, hremoves⟩ := h
      rcases List.mem_append.mp hw with hw | hw
      · obtain ⟨k', hk', htask'⟩ := hside w hw
        exact Or.inr (Or.inr (Or.inr (Or.inl ⟨i, rfl, hkey htask' ▸ hk'⟩)))
      · have hremoved := hremoves.tables w hw
        rw [htask.table] at hremoved
        simp at hremoved
  | deleteAsset a =>
      obtain ⟨x, w', removal, honce, htask', rfl, -, -, hremoval⟩ := h
      rcases List.mem_cons.mp hw with rfl | hw
      · obtain ⟨e, he, hx⟩ := honce
        have hid : x.id = a := asset?_id hx
        exact Or.inl ⟨x, ⟨e, he, hid ▸ hx⟩, hkey htask'⟩
      · rcases hremoval with ⟨rfl, -⟩ | ⟨y, -, -, hdiscards⟩
        · cases hw
        · have hdiscarded := hdiscards.tables w hw
          rw [htask.table] at hdiscarded
          simp at hdiscarded
  | rollbackDuplicateCopies i =>
      obtain ⟨hmarks, hall⟩ := h
      obtain ⟨u, a, n, hdrawn, htask'⟩ := hall w hw
      exact Or.inr (Or.inr (Or.inr (Or.inr
        ⟨u, i, a, n, rfl, (hkey htask').symm, hdrawn, hmarks⟩)))
  | _ => simp [Site.tables] at htable

/-- No asset is stored under the key of an output. -/
theorem Runs.asset_ne_output (hstart : Begins start) (h : Runs (contract cfg start) S)
    {u r : Id} {x : ReportAsset} (honce : Once S fun d => asset? d x.id = some x) :
    x.storageKey ≠ .output u r g tok := by
  obtain ⟨S₀, hruns, -, hx⟩ := Runs.once hstart h honce
  obtain ⟨u', n, hkey⟩ := Runs.asset_key hstart hruns x.id x hx
  rw [hkey]
  simp

/-- The keys of a report other than those of its assets. -/
theorem Runs.output_of_keys (hstart : Begins start) (h : Runs (contract cfg start) S)
    {i u r : Id} (hk : .output u r g tok ∈ storageKeysOf i S.db) :
    ∃ o ∈ outputs S.db, o.reportId = i ∧ o.storageKey = .output u r g tok := by
  rcases List.mem_append.mp hk with hk | hk
  · obtain ⟨x, hx, hkey⟩ := List.mem_map.mp hk
    obtain ⟨u', n, hkey'⟩ :=
      Runs.asset_key hstart h x.id x (mem_assets.mp (List.mem_filter.mp hx).1)
    rw [hkey'] at hkey
    cases hkey
  · obtain ⟨o, ho, hkey⟩ := List.mem_map.mp hk
    obtain ⟨ho, hr⟩ := List.mem_filter.mp ho
    exact ⟨o, ho, of_decide_eq_true hr, hkey⟩

-- ================================================ published or given up

/-- The run with the token published its upload or gave it up. -/
def Resolved (S : RState) (tok : Id) : Prop :=
  ∃ t, tok ∈ S.ids t ∧ ∃ s ∈ marks S t, s.settles = true ∨ s.schedules = true

theorem marks_mono (htr : S.trace <:+ S'.trace) (hs : s ∈ marks S t) : s ∈ marks S' t := by
  obtain ⟨hs, hmark⟩ := List.mem_filter.mp hs
  exact List.mem_filter.mpr ⟨(htr.filterMap _).subset hs, hmark⟩

theorem Resolved.mono (h : Resolved S tok) (htr : S.trace <:+ S'.trace) : Resolved S' tok := by
  obtain ⟨t, htok, s, hs, hwhy⟩ := h
  exact ⟨t, Shared.mem_ids_of_suffix htr htok, s, marks_mono htr hs, hwhy⟩

/-- A publication resolves the run that made it. -/
theorem PublishedBy.resolved {e : REntry} (h : PublishedBy S e o) (he : e ∈ S.trace)
    {u r : Id} (hkey : o.storageKey = .output u r g tok) : Resolved S tok := by
  obtain ⟨tok', ws, u', hev, htok, hkey', -⟩ := h
  rw [hkey', StorageKey.output.injEq] at hkey
  obtain rfl := hkey.2.2.2
  exact ⟨e.tid, htok, _, Shared.mem_marks he hev rfl, Or.inl rfl⟩

/-- A cleanup of an output key is written after its run is done with it. -/
theorem Runs.tasked_resolved (hstart : Begins start) (h : Runs (contract cfg start) S)
    {u r : Id} (htask : Tasked S (.output u r g tok)) : Resolved S tok := by
  refine h.invariant (I := fun S => Tasked S (.output u r g tok) → Resolved S tok) ?_ ?_ htask
  · rintro ⟨e, he, -⟩
    rw [show (contract cfg start).start.trace = start.trace from rfl, hstart.trace] at he
    cases he
  · rintro j S S' hruns ih hm ⟨e, he, s, ws, hev, w, hw, hwrite⟩
    have hold : e ∈ S.trace → Resolved S' tok := fun he =>
      (ih ⟨e, he, s, ws, hev, w, hw, hwrite⟩).mono hm.trace_suffix
    rcases hm.commit_or with ⟨s', ws', hC, -, rfl⟩ | ⟨-, htr | ⟨ev, hne, htr⟩⟩
    · rcases List.mem_cons.mp he with rfl | he
      · cases hev
        rcases hC.1.task hw hwrite with ⟨x, honce, hkey⟩ | ⟨rfl, u', r', g', tok', hk, hids, -⟩ |
          ⟨-, hbefore⟩ | ⟨i, -, hk⟩ | ⟨_, _, _, _, -, hk, -⟩
        · exact absurd hkey (Runs.asset_ne_output hstart hruns honce)
        · cases hk
          refine ⟨j, Shared.mem_ids_of_suffix hm.trace_suffix ?_, .scheduleOrphanCleanup _,
            Shared.mem_marks (e := ⟨j, .commit _ ws, S.toScene⟩) List.mem_cons_self rfl rfl, Or.inr rfl⟩
          rw [hids]
          exact List.mem_singleton.mpr rfl
        · exact (ih hbefore).mono hm.trace_suffix
        · obtain ⟨o, ho, -, hkey⟩ := Runs.output_of_keys hstart hruns hk
          obtain ⟨e, he, hpub⟩ := Runs.published hstart hruns o ho
          exact (hpub.resolved he hkey).mono hm.trace_suffix
        · cases hk
      · exact hold he
    · exact hold (htr ▸ he)
    · rw [htr] at he
      rcases List.mem_cons.mp he with rfl | he
      · exact absurd hev (hne s ws)
      · exact hold he

/-- A run that is about to publish has neither settled nor given up. -/
theorem Runs.unresolved (hstart : Begins start) (h : Runs (contract cfg start) S)
    (hsite : RunSite S t (.finalizeSuccess g tok)) : ¬ Resolved S tok := by
  rintro ⟨t', htok, s, hs, hwhy⟩
  have hworking := hsite.finalizing
  have ht : t' = t := by
    refine (h.idsDistinct hstart.trace).unique htok ?_
    rw [hworking.ids]
    exact List.mem_singleton.mpr rfl
  subst ht
  rcases hwhy with hsettles | hschedules
  · rw [hworking.unsettled s hs] at hsettles
    cases hsettles
  · rw [hsite.publishes g tok rfl s hs] at hschedules
    cases hschedules

/-- No cleanup task was ever written for the key of a stored output. -/
theorem Runs.untouched (hstart : Begins start) (h : Runs (contract cfg start) S) :
    ∀ o ∈ outputs S.db, ¬ Tasked S o.storageKey := by
  refine h.invariant (I := fun S => ∀ o ∈ outputs S.db, ¬ Tasked S o.storageKey) ?_ ?_
  · rintro o - ⟨e, he, -⟩
    rw [show (contract cfg start).start.trace = start.trace from rfl, hstart.trace] at he
    cases he
  · rintro j S S' hruns ih hm o ho ⟨e, he, s, ws, hev, w, hw, hwrite⟩
    rcases hm.commit_or with ⟨s', ws', hC, -, rfl⟩ | ⟨hdb, htr | ⟨ev, hne, htr⟩⟩
    · have hafter : output? (applyAll ws' S.db) o.generationId = some o := mem_outputs.mp ho
      rcases hC.1.output o.generationId with hsame | hchange
      · have hstored : o ∈ outputs S.db := mem_outputs.mpr (hsame ▸ hafter)
        rcases List.mem_cons.mp he with rfl | he
        · cases hev
          obtain ⟨e, he, hpub⟩ := Runs.published hstart hruns o hstored
          obtain ⟨tok, wsp, u, hevp, htok, hkey, -⟩ := hpub
          rcases hC.1.task hw hwrite with ⟨x, honce, hx⟩ | ⟨-, u', r', g', tok', hk, hids, hquiet⟩ |
            ⟨-, hbefore⟩ | ⟨i, rfl, hk⟩ | ⟨_, _, _, _, -, hk, -⟩
          · exact Runs.asset_ne_output hstart hruns honce (hx.trans hkey)
          · -- the thread that gives the key up is the one that published it
            rw [hkey, StorageKey.output.injEq] at hk
            have ht : e.tid = j := by
              refine (hruns.idsDistinct hstart.trace).unique htok ?_
              rw [hids, hk.2.2.2]
              exact List.mem_singleton.mpr rfl
            have hsettled := hquiet _ (ht ▸ Shared.mem_marks he hevp rfl)
            cases hsettled
          · exact ih o hstored hbefore
          · rw [hkey] at hk
            obtain ⟨o', ho', hi, hkey'⟩ := Runs.output_of_keys hstart hruns hk
            obtain rfl := Runs.output_eq hstart hruns hstored ho' (hkey'.trans hkey.symm)
            rw [Deletes.output hC.1 hstored hi] at hafter
            cases hafter
          · rw [hkey] at hk
            cases hk
        · exact ih o hstored ⟨e, he, s, ws, hev, w, hw, hwrite⟩
      · rw [hafter] at hchange
        generalize output? S.db o.generationId = before at hchange
        cases hchange with
        | published tok x _ u _ _ _ hkey _ =>
            rw [hkey] at hwrite
            refine Runs.unresolved hstart hruns hC.2 (Runs.tasked_resolved hstart hruns (g :=
              o.generationId) (u := u) (r := o.reportId) ?_)
            rcases List.mem_cons.mp he with rfl | he
            · cases hev
              have htable := hC.1.tables w hw
              rw [hwrite.table] at htable
              simp [Site.tables] at htable
            · exact ⟨e, he, s, ws, hev, w, hw, hwrite⟩
    · exact ih o (hdb ▸ ho) ⟨e, htr ▸ he, s, ws, hev, w, hw, hwrite⟩
    · rw [htr] at he
      rcases List.mem_cons.mp he with rfl | he
      · exact hne s ws hev
      · exact ih o (hdb ▸ ho) ⟨e, he, s, ws, hev, w, hw, hwrite⟩

/-- Nothing was done towards deleting the object. -/
structure Untouched (S : RState) (k : StorageKey) : Prop where
  unwritten : ¬ Tasked S k
  unstored : ∀ x ∈ cleanupTasks S.db, x.storageKey ≠ k
  undeleted : ∀ e ∈ S.trace, ∀ c, e.event ≠ .call (.deleteObject k) c

/-- Without a task for its key an object is not touched. -/
theorem Untouched.of_not_tasked (hstart : Begins start) (h : Runs (contract cfg start) S)
    (hk : ¬ Tasked S k) : Untouched S k where
  unwritten := hk
  unstored := fun x hx hkey => hk (hkey ▸ tasked_of_mem hstart h hx)
  undeleted := fun e he c hev => by
    obtain ⟨S₀, S₁, hpast⟩ := Runs.since hstart.trace h he
    have hcall := hpast.promised
    rw [hev] at hcall
    exact hk (Tasked.mono hcall ((List.suffix_cons _ _).trans hpast.suffix))

-- ====================================================== when a run is over

/-- An output row refers to the object, or its cleanup was scheduled. -/
def Accounted (S : RState) (k : StorageKey) : Prop :=
  (∃ o ∈ outputs S.db, o.storageKey = k) ∨ Tasked S k

/-- No compensation of a failed enqueue removed an output with the key. -/
def SparedByCompensation (entries : List REntry) (k : StorageKey) : Prop :=
  ∀ e ∈ entries, ∀ g ws, e.event = .commit (.compensateQueueFailure g) ws → ws ≠ [] →
    ∀ o, output? e.before.db g = some o → o.storageKey ≠ k

/-- An output leaves the database with its report only, which schedules the
cleanup of its key. -/
theorem Effect.accounted (hstart : Begins start) (h : Runs (contract cfg start) S)
    (heff : Effect cfg t s ws S) (hacc : Accounted S k)
    (hspared : SparedByCompensation [⟨t, .commit s ws, S.toScene⟩] k) :
    Accounted (S.commit t s ws) k := by
  rcases hacc with ⟨o, ho, rfl⟩ | htask
  · have hbefore := mem_outputs.mp ho
    rcases heff.output o.generationId with hsame | hchange
    · exact Or.inl ⟨o, mem_outputs.mpr (hsame.trans hbefore), rfl⟩
    · have hne : ws ≠ [] := by
        rintro rfl
        rw [applyAll_nil, hbefore] at hchange
        cases hchange
      rw [hbefore] at hchange
      generalize output? (applyAll ws S.db) o.generationId = after at hchange
      cases hchange with
      | compensated _ =>
          exact absurd rfl (hspared _ List.mem_cons_self _ ws rfl hne o hbefore)
      | removed i _ hwhy =>
          obtain ⟨e, he, -, -, -, -, -, -, x, hx, hrep⟩ := Runs.published hstart h o ho
          have hreport : o.reportId = i := by
            rcases hwhy with hreport | ⟨y, hy, hyi⟩
            · exact hreport
            · have hsame := (h.persists (lasting_generation hstart _)).same e he x y hx hy
              exact hrep.symm.trans (hsame.reportId.symm.trans hyi)
          obtain ⟨r, side, removal, -, -, -, -, hkeys, rfl, -⟩ := heff
          have hmem : o.storageKey ∈ storageKeysOf i S.db :=
            List.mem_append_right _ (List.mem_map_of_mem
              (List.mem_filter.mpr ⟨ho, decide_eq_true hreport⟩))
          obtain ⟨w, hw, htask⟩ := hkeys _ hmem
          exact Or.inr ⟨_, List.mem_cons_self, _, _, rfl, w, List.mem_append_left _ hw, htask⟩
  · exact Or.inr (htask.mono (List.suffix_cons _ _))

/-- The object of a published output stays accounted for. -/
theorem Runs.published_kept (hstart : Begins start) (h : Runs (contract cfg start) S)
    {newer older : List REntry} {e : REntry} (htr : S.trace = newer ++ e :: older)
    (hev : e.event = .commit (.finalizeSuccess g tok) ws) (ho : .insert (.output o) ∈ ws)
    (hspared : SparedByCompensation newer o.storageKey) : Accounted S o.storageKey := by
  refine Runs.after (I := fun newer S => SparedByCompensation newer o.storageKey →
    Accounted S o.storageKey) hstart.trace h htr ?_ ?_ hspared
  · rintro S₀ S₁ hpast - -
    obtain ⟨⟨heff, -⟩, rfl⟩ := hpast.commit hev
    obtain ⟨hgen, hstored⟩ := Finalizes.output heff ho
    exact Or.inl ⟨o, mem_outputs.mpr (hgen ▸ hstored), rfl⟩
  · intro j S S' newer added hruns htr ih hm hadded hspared
    have hbefore := ih fun e he => hspared e (List.mem_append_right _ he)
    rcases hm.commit_or with ⟨s, ws', hC, -, rfl⟩ | ⟨hdb, -⟩
    · have hentry : added = [⟨j, .commit s ws', S.toScene⟩] :=
        List.append_cancel_right hadded.symm
      refine Effect.accounted hstart hruns hC.1 hbefore fun e he => hspared e ?_
      exact List.mem_append_left _ (hentry ▸ he)
    · rcases hbefore with ⟨o', ho', hkey⟩ | htask
      · exact Or.inl ⟨o', hdb ▸ ho', hkey⟩
      · exact Or.inr (htask.mono hm.trace_suffix)

/-- The state an entry was made in. -/
def stateBefore (e : REntry) (older : List REntry) : RState :=
  { e.before with trace := older }

/-- The thread stored an object under the key. -/
def StoredObject (entries : List REntry) (t : Tid) (k : StorageKey) : Prop :=
  ∃ e ∈ entries, e.tid = t ∧ e.event = .enter (.uploadObject k)

/-- A thread that stores an object is a run of the worker, and stays one. -/
theorem Runs.stores (hstart : Begins start) (h : Runs (contract cfg start) S)
    (hk : StoredObject S.trace t k) :
    (∃ g a m, S.asked t = [.process g a m]) ∧ .uploadObject k ∈ metered S t := by
  obtain ⟨e, he, rfl, hev⟩ := hk
  obtain ⟨S₀, S₁, hpast⟩ := Runs.since hstart.trace h he
  have hentered := hpast.promised
  rw [hev] at hentered
  obtain ⟨u, r, g, tok, -, hworking, -⟩ := hentered
  obtain ⟨a, m, hasked, -⟩ := hworking.asked
  have hspawned : ∃ e' ∈ S₀.trace, e'.tid = e.tid := by
    have hmem : Req.process g a m ∈ S₀.asked e.tid := by
      rw [hasked]
      exact List.mem_singleton.mpr rfl
    obtain ⟨e', he', hreq⟩ := List.mem_filterMap.mp hmem
    refine ⟨e', he', ?_⟩
    split at hreq
    next => exact (Option.ite_none_right_eq_some.mp hreq).1
    next => cases hreq
  have hsteps : Steps (contract cfg start) S₀ S :=
    Relation.ReflTransGen.head ⟨_, hpast.move⟩ hpast.steps
  refine ⟨⟨g, a, m, (hsteps.asked_of_mem hspawned).trans hasked⟩, ?_⟩
  refine List.mem_filter.mpr ⟨List.mem_filterMap.mpr ⟨e, he, ?_⟩, rfl⟩
  rw [hev]
  exact if_pos rfl

/-- When a run ends, what it stored is accounted for, or its error is that
of the cleanup it could not schedule. -/
theorem Runs.accounted (hstart : Begins start) (h : Runs (contract cfg start) S)
    {newer older : List REntry} {e : REntry} (htr : S.trace = newer ++ e :: older)
    {r : Except Error Res} (hev : e.event = .finish r) (hk : StoredObject older e.tid k)
    (hspared : SparedByCompensation older k) :
    Accounted (stateBefore e older) k ∨
      ∃ err, r = .error err ∧ Unscheduled e.tid k err (stateBefore e older) := by
  obtain ⟨S₀, S₁, hpast, rfl⟩ := h.at hstart.trace htr
  have hstate : stateBefore e S₀.trace = S₀ := by
    unfold stateBefore
    rw [← hpast.scene]
  rw [hstate]
  obtain ⟨hrun, hmetered⟩ := Runs.stores hstart hpast.runs hk
  have hfinishes := hpast.promised
  rw [hev] at hfinishes
  refine (hfinishes.2 hrun k hmetered).imp_left ?_
  rintro (⟨e', he', -, g, tok, ws, o, hev', ho, rfl⟩ | htask)
  · obtain ⟨newer', older', htr'⟩ := List.append_of_mem he'
    refine Runs.published_kept hstart hpast.runs htr' hev' ho fun e he => hspared e ?_
    rw [htr']
    exact List.mem_append_left _ he
  · exact Or.inr htask

/-- An output row and the cleanup of its object exclude each other, and
when a run ends each object it stored has one of them, unless the run
threw the error of the cleanup it could not schedule. -/
theorem published_or_scheduled (h : Reached cfg w) :
    (∀ o ∈ outputs w.shared.db, Untouched w.shared o.storageKey) ∧
    ∀ newer e older r k, w.shared.trace = newer ++ e :: older → e.event = .finish r →
      StoredObject older e.tid k → SparedByCompensation older k →
      Accounted (stateBefore e older) k ∨
        ∃ err, r = .error err ∧ Unscheduled e.tid k err (stateBefore e older) := by
  obtain ⟨start, hstart, hruns⟩ := h.runs
  refine ⟨fun o ho => ?_, fun newer e older r k htr hev hk hspared => ?_⟩
  · exact Untouched.of_not_tasked hstart hruns (Runs.untouched hstart hruns o ho)
  · exact Runs.accounted hstart hruns htr hev hk hspared

/-- A run that stored an object under the key ends, and no generation was
compensated before. -/
def endsStored (k : StorageKey) : List REntry → Bool
  | ⟨t, .finish _, _⟩ :: older =>
      older.any (fun e => e.tid = t && match e.event with
        | .enter (.uploadObject k') => k' = k
        | _ => false) &&
      older.all fun e => match e.event with
        | .commit (.compensateQueueFailure _) _ => false
        | _ => true
  | _ => false

theorem endsStored_eq {entries : List REntry} (h : endsStored k entries = true) :
    ∃ e older r, entries = e :: older ∧ e.event = .finish r ∧ StoredObject older e.tid k ∧
      SparedByCompensation older k := by
  unfold endsStored at h
  split at h
  next t r sc older =>
      obtain ⟨hstored, hquiet⟩ := (Bool.and_eq_true _ _).mp h
      obtain ⟨e, he, hentered⟩ := List.any_eq_true.mp hstored
      obtain ⟨ht, hk⟩ := (Bool.and_eq_true _ _).mp hentered
      refine ⟨_, older, r, rfl, rfl, ⟨e, he, of_decide_eq_true ht, ?_⟩, ?_⟩
      · split at hk
        next k' hev => rw [hev, of_decide_eq_true hk]
        next => cases hk
      · intro e he g ws hev
        have hnone := List.all_eq_true.mp hquiet e he
        rw [hev] at hnone
        cases hnone
  next => cases h

/-- The object of a published output is kept. -/
theorem published_or_scheduled_published : ∃ w e older r, Reached defaults w ∧
    w.shared.trace = e :: older ∧ e.event = .finish r ∧
    StoredObject older e.tid (.output 1 10 12 13) ∧
    (∃ o ∈ outputs w.shared.db, o.storageKey = .output 1 10 12 13) ∧
    (∀ o ∈ outputs w.shared.db, Untouched w.shared o.storageKey) ∧
    (Accounted (stateBefore e older) (.output 1 10 12 13) ∨
      ∃ err, r = .error err ∧
        Unscheduled e.tid (.output 1 10 12 13) err (stateBefore e older)) := by
  have hrun : (sampleWorld.runAll (app defaults) (outputStored ++ steps 4 14)).any (fun w =>
      endsStored (.output 1 10 12 13) w.shared.trace &&
        (outputs w.shared.db).any (·.storageKey = .output 1 10 12 13)) = true := by
    decide +kernel
  obtain ⟨w, hw, hp⟩ := exists_reached hrun
  obtain ⟨hends, hstored⟩ := (Bool.and_eq_true _ _).mp hp
  obtain ⟨e, older, r, htr, hev, hk, hspared⟩ := endsStored_eq hends
  obtain ⟨o, ho, hkey⟩ := List.any_eq_true.mp hstored
  have h := published_or_scheduled hw
  exact ⟨w, e, older, r, hw, htr, hev, hk, ⟨o, ho, of_decide_eq_true hkey⟩, h.1,
    h.2 [] e older r _ htr hev hk hspared⟩

end FastRep.Reports
