/-
A generation ends once.

It is completed, fails or is cancelled in one commit, which finds it
active, and its row stays as that commit left it until it is deleted. An
output is only created by the commit that completes the generation, so
there is at most one in its whole history, deleted or not.

# The count

`ends` picks the commits that end a generation out of the history, and
`EndsOnce` is the invariant: as long as the generation is stored, none of them
was made exactly while it is active, and one otherwise. A commit that ends it
finds it active (`Runs.ends_active`), so there was none before; any other
commit leaves it active if it was (`Effect.stays_active`) and does not write
it if it has ended (`Effect.ended`). A generation that is gone is not created
again, so the count stays what it is.

A compensation is no ending: it takes the start back, and the generation is
gone with its row.
-/
import FastRep.Reports.Proofs.Lifecycle
import FastRep.Reports.Proofs.Reached
import FastRep.Reports.Proofs.ResultChanges

namespace FastRep.Reports

open FastRep.Txn

variable {cfg : Config} {start S S' : RState} {t : Tid} {s : Site} {ws : List (Write Row Key)}
  {w : RWorld} {g tok : Id}

-- ============================================================= one commit

/-- What a cancellation leaves of the generation. -/
theorem Effect.cancelled (h : Effect cfg t (.cancel g) ws S) : ws ≠ [] ∧
    ∃ x now, generation? S.db g = some x ∧ x.status = .queued ∧
      generation? (applyAll ws S.db) g
        = some { x with status := .cancelled, cancelledAt := some now } := by
  obtain ⟨x, r, now, prior, credit, hx, hqueued, hr, -, rfl, hrel⟩ := h
  obtain ⟨hgen, -⟩ := lookups_of_settling (l := []) (d := S.db)
    (y := { x with status := .cancelled, cancelledAt := some now })
    (z := { r with status := prior }) (by simp) hrel.tables
  exact ⟨by simp, x, now, hx, hqueued, (hgen g).trans (if_pos (generation?_id hx))⟩

/-- A compensated generation is gone. -/
theorem Effect.compensated (h : Effect cfg t (.compensateQueueFailure g) ws S) (hne : ws ≠ []) :
    generation? (applyAll ws S.db) g = none := by
  rcases h with rfl | ⟨newer, older, read, x, y, credit, follow, removal, -, -, -, -, -, -, rfl, -,
    -, -, hremoves⟩
  · exact absurd rfl hne
  · rw [applyAll_append]
    exact hremoves.generation?_of_gone rfl

/-- A generation that has ended is not written any more. -/
theorem Effect.ended (h : Effect cfg t s ws S) {x y : ReportGeneration}
    (hx : generation? S.db g = some x) (hended : x.status.active = false)
    (hy : generation? (applyAll ws S.db) g = some y) : y = x := by
  have hnot : x.status.active ≠ true := by simp [hended]
  rcases h.generation g with hsame | hchange
  · rw [hsame, hx] at hy
    exact (Option.some.inj hy).symm
  rw [hx, hy] at hchange
  cases hchange with
  | enqueued _ _ hqueued => exact absurd (by rw [hqueued]; rfl) hnot
  | cancelled _ _ hqueued => exact absurd (by rw [hqueued]; rfl) hnot
  | claimed _ _ _ _ hclaimable => exact absurd (active_of_claimable hclaimable) hnot
  | fenced _ _ _ _ _ howned _ => exact absurd (active_of_owned howned) hnot
  | requeued _ _ _ howned => exact absurd (active_of_owned howned) hnot
  | failed _ _ _ _ _ howned => exact absurd (active_of_owned howned) hnot
  | completed _ _ _ howned => exact absurd (active_of_owned howned) hnot

/-- The commit ends the generation. -/
def ends (g : Id) (e : REntry) : Bool :=
  match e.event with
  | .commit (.finalizeSuccess i _) _ | .commit (.cancel i) _ => i = g
  | .commit (.failGeneration i _) ws => i = g && !ws.isEmpty
  | _ => false

/-- The commit creates an output of the generation. -/
def publishes (g : Id) (e : REntry) : Bool :=
  match e.event with
  | .commit _ ws =>
      (output? e.before.db g).isNone && (output? (applyAll ws e.before.db) g).isSome
  | _ => false

theorem ends_of_commit {e : REntry} (h : ends g e = true) :
    ∃ s ws, e.event = .commit s ws := by
  unfold ends at h
  split at h
  next hev => exact ⟨_, _, hev⟩
  next hev => exact ⟨_, _, hev⟩
  next hev => exact ⟨_, _, hev⟩
  next => cases h

/-- What ends a generation finds it active, and leaves it as it stays. -/
theorem Runs.ends_active (hstart : Begins start) (hruns : Runs (contract cfg start) S)
    (h : Effect cfg t s ws S) (hends : ends g ⟨t, .commit s ws, S.toScene⟩ = true) :
    ∃ x y, generation? S.db g = some x ∧ x.status.active = true ∧
      generation? (applyAll ws S.db) g = some y ∧ y.status.active = false := by
  cases s with
  | finalizeSuccess i tok =>
      simp only [ends, decide_eq_true_eq] at hends
      subst hends
      obtain ⟨x, r, o, now, credit, hx, howned, -, -, -, -, -, -, -, hafter, -⟩ :=
        Runs.finalized hstart hruns h
      exact ⟨x, _, hx, active_of_owned howned, hafter, rfl⟩
  | cancel i =>
      simp only [ends, decide_eq_true_eq] at hends
      subst hends
      obtain ⟨-, x, now, hx, hqueued, hafter⟩ := h.cancelled
      exact ⟨x, _, hx, by rw [hqueued]; rfl, hafter, rfl⟩
  | failGeneration i tok =>
      simp only [ends, Bool.and_eq_true, decide_eq_true_eq, Bool.not_eq_true',
        List.isEmpty_eq_false_iff] at hends
      obtain ⟨rfl, hne⟩ := hends
      obtain ⟨x, r, errorCode, message, now, read, hasOutput, credit, hx, howned, -, -, -, -, -,
        hafter, -⟩ := h.failed hne
      exact ⟨x, _, hx, active_of_owned howned, hafter, rfl⟩
  | _ => cases hends

/-- Any other commit leaves a generation active that was. -/
theorem Effect.stays_active (h : Effect cfg t s ws S)
    (hends : ends g ⟨t, .commit s ws, S.toScene⟩ = false) {x y : ReportGeneration}
    (hx : generation? S.db g = some x) (hy : generation? (applyAll ws S.db) g = some y) :
    y.status.active = x.status.active := by
  by_cases hws : ws = []
  · rw [hws, show generation? (applyAll [] S.db) g = _ from hx] at hy
    cases hy
    rfl
  rcases h.generation g with hsame | hchange
  · rw [hsame, hx] at hy
    cases hy
    rfl
  rw [hx, hy] at hchange
  cases hchange with
  | enqueued _ _ _ => rfl
  | cancelled _ _ _ => simp [ends] at hends
  | claimed _ _ _ _ hclaimable =>
      rw [active_of_claimable hclaimable]
      rfl
  | fenced _ _ _ _ _ _ hcore => rw [hcore.status]
  | requeued _ _ _ howned =>
      rw [active_of_owned howned]
      rfl
  | failed _ _ _ _ _ _ => simp [ends, hws] at hends
  | completed _ _ _ _ => simp [ends] at hends

/-- An output is created by what completes its generation. -/
theorem Effect.publishes_ends (h : Effect cfg t s ws S)
    (hpublishes : publishes g ⟨t, .commit s ws, S.toScene⟩ = true) :
    ends g ⟨t, .commit s ws, S.toScene⟩ = true := by
  simp only [publishes, Bool.and_eq_true] at hpublishes
  obtain ⟨hnone, hsome⟩ := hpublishes
  obtain ⟨o, ho⟩ := Option.isSome_iff_exists.mp hsome
  have hbefore : output? S.db g = none := Option.isNone_iff_eq_none.mp hnone
  rcases h.output g with hsame | hchange
  · rw [show output? (applyAll ws S.db) g = some o from ho, hbefore] at hsame
    cases hsame
  · change output? (applyAll ws S.db) g = some o at ho
    rw [hbefore, ho] at hchange
    cases hchange with
    | published _ _ _ _ _ _ _ _ _ => simp [ends]

-- ================================================================= the run

/-- How often a generation has ended. -/
structure EndsOnce (S : RState) (g : Id) : Prop where
  once : S.trace.countP (ends g) ≤ 1
  active : ∀ x, generation? S.db g = some x →
    (S.trace.countP (ends g) = 0 ↔ x.status.active = true)
  created : S.trace.countP (ends g) ≠ 0 → Created S g

/-- In every state of a run a generation has ended at most once. -/
theorem Runs.ends_once (hstart : Begins start) (h : Runs (contract cfg start) S) (g : Id) :
    EndsOnce S g := by
  refine h.invariant (I := fun S => EndsOnce S g) ?_ ?_
  · have hnone : generation? start.db g = none := generation?_eq_none.mpr
      (hstart.unused.find?_eq_none (k := .generation g) (by simp [Key.table]) (by simp [Key.table]))
    have hzero : (contract cfg start).start.trace.countP (ends g) = 0 := by
      rw [show (contract cfg start).start.trace = [] from hstart.trace]
      rfl
    refine ⟨Nat.le_trans (Nat.le_of_eq hzero) (Nat.zero_le 1), fun x hx => ?_,
      fun hne => absurd hzero hne⟩
    rw [show generation? (contract cfg start).start.db g = none from hnone] at hx
    cases hx
  · intro j S S' hruns ih hm
    rcases hm.commit_or with ⟨s, ws, hC, -, rfl⟩ | ⟨hdb, hquiet⟩
    · have hcount : (S.commit j s ws).trace.countP (ends g)
          = S.trace.countP (ends g)
            + if ends g ⟨j, .commit s ws, S.toScene⟩ = true then 1 else 0 :=
        List.countP_cons
      cases hends : ends g ⟨j, .commit s ws, S.toScene⟩ with
      | true =>
          rw [hends, if_pos rfl] at hcount
          obtain ⟨x, y, hx, hactive, hy, hended⟩ := Runs.ends_active hstart hruns hC.1 hends
          have hzero := (ih.active x hx).mpr hactive
          refine ⟨?_, fun z hz => ?_, fun _ => ?_⟩
          · rw [hcount, hzero]
          · have hyz : y = z := Option.some.inj (hy.symm.trans hz)
            rw [← hyz, hended]
            simp [hcount]
          · have hused := (hruns.persists (lasting_generation hstart g)).created x hx
            exact Created.mono hused (List.suffix_cons _ _)
      | false =>
          rw [hends, if_neg (by simp), Nat.add_zero] at hcount
          refine ⟨by have := ih.once; omega, fun y hy => ?_, fun hne => ?_⟩
          · rw [hcount]
            cases hx : generation? S.db g with
            | some x =>
                rw [hC.1.stays_active hends hx hy]
                exact ih.active x hx
            | none =>
                have hcreates := hC.1.creates_generation hx hy S.toScene
                have hzero : S.trace.countP (ends g) = 0 := by
                  by_contra hne
                  obtain ⟨e, he, hi⟩ := ih.created hne
                  exact Runs.not_created_again hstart hruns hm he hi hcreates
                rcases hC.1.generation g with hsame | hchange
                · rw [show generation? (S.commit j s ws).db g = _ from hsame, hx] at hy
                  cases hy
                · rw [hx, show generation? (applyAll ws S.db) g = some y from hy] at hchange
                  cases hchange with
                  | started => simp [hzero, newGeneration, ReportGenerationStatus.active]
          · rw [hcount] at hne
            exact (ih.created hne).mono (List.suffix_cons _ _)
    · have hcount : S'.trace.countP (ends g) = S.trace.countP (ends g) := by
        rcases hquiet with htr | ⟨ev, hev, htr⟩
        · rw [htr]
        · rw [htr, List.countP_cons_of_neg]
          intro hends
          obtain ⟨s, ws, hcommit⟩ := ends_of_commit hends
          exact hev s ws hcommit
      refine ⟨hcount ▸ ih.once, fun x hx => ?_, fun hne => ?_⟩
      · rw [hcount]
        exact ih.active x (hdb ▸ hx)
      · rw [hcount] at hne
        exact (ih.created hne).mono hm.trace_suffix

/-- A generation that was seen ended is still like that, or is gone. -/
theorem Runs.stays_ended (hstart : Begins start) (h : Runs (contract cfg start) S) {e : REntry}
    (he : e ∈ S.trace) {x y : ReportGeneration} (hx : generation? e.before.db g = some x)
    (hended : x.status.active = false) (hy : generation? S.db g = some y) : y = x := by
  have hall : ∀ e ∈ S.trace, ∀ x y, generation? e.before.db g = some x →
      x.status.active = false → generation? S.db g = some y → y = x := by
    refine h.invariant (I := fun S => ∀ e ∈ S.trace, ∀ x y, generation? e.before.db g = some x →
      x.status.active = false → generation? S.db g = some y → y = x) ?_ ?_
    · intro e he
      rw [show (contract cfg start).start.trace = [] from hstart.trace] at he
      cases he
    · intro j S S' hruns ih hm e he x y hx hended hy
      rcases hm.commit_or with ⟨s, ws, hC, -, rfl⟩ | ⟨hdb, -⟩
      · rcases List.mem_cons.mp he with rfl | he
        · exact hC.1.ended hx hended hy
        cases hz : generation? S.db g with
        | some z =>
            have hzx := ih e he x z hx hended hz
            rw [← hzx]
            exact hC.1.ended hz (hzx ▸ hended) hy
        | none =>
            obtain ⟨e', he', hi⟩ := (hruns.persists (lasting_generation hstart g)).seen e he x hx
            have hcreates := hC.1.creates_generation hz hy S.toScene
            exact absurd hcreates (Runs.not_created_again hstart hruns hm he' hi)
      · rw [hdb] at hy
        rcases hm.mem_trace he with he | he
        · exact ih e he x y hx hended hy
        · rw [he] at hx
          exact Option.some.inj (hy.symm.trans hx)
  exact hall e he x y hx hended hy

/-- At most one output was ever created for a generation. -/
theorem Runs.publishes_once (hstart : Begins start) (h : Runs (contract cfg start) S) (g : Id) :
    S.trace.countP (publishes g) ≤ 1 := by
  refine Nat.le_trans (List.countP_mono_left fun e he hpublishes => ?_)
    (Runs.ends_once hstart h g).once
  obtain ⟨s, ws, hev⟩ : ∃ s ws, e.event = .commit s ws := by
    unfold publishes at hpublishes
    split at hpublishes
    next hev => exact ⟨_, _, hev⟩
    next => cases hpublishes
  obtain ⟨S₀, S₁, hpast⟩ := Runs.since hstart.trace h he
  have heq : e = ⟨e.tid, .commit s ws, S₀.toScene⟩ := by
    rw [hpast.scene, ← hev]
  rw [heq] at hpublishes ⊢
  exact (hpast.commit hev).1.1.publishes_ends hpublishes

/-- A generation ends at most once, and has not ended exactly while it is
active. From then on its row is not written any more, and at most one
output was ever created for it. -/
theorem generation_ends_once (cfg : Config) (w : RWorld) (h : Reached cfg w) (g : Id) :
    w.shared.trace.countP (ends g) ≤ 1 ∧
      (∀ x, generation? w.shared.db g = some x →
        (w.shared.trace.countP (ends g) = 0 ↔ x.status.active = true)) ∧
      (∀ e ∈ w.shared.trace, ∀ x y, generation? e.before.db g = some x →
        x.status.active = false → generation? w.shared.db g = some y → y = x) ∧
      w.shared.trace.countP (publishes g) ≤ 1 := by
  obtain ⟨start, hstart, hruns⟩ := h.runs
  have hends := Runs.ends_once hstart hruns g
  refine ⟨hends.once, hends.active, fun e he x y hx hended hy => ?_, ?_⟩
  · exact Runs.stays_ended hstart hruns he hx hended hy
  · exact Runs.publishes_once hstart hruns g

/-- A cancelled generation has ended once. -/
theorem generation_ends_once_cancelled : ∃ w x, Reached defaults w ∧
    generation? w.shared.db 12 = some x ∧ x.status = .cancelled ∧
    w.shared.trace.countP (ends 12) ≠ 0 := by
  have hrun : (sampleWorld.runAll (app defaults) generationCancelled).any (fun w =>
      (generation? w.shared.db 12).any fun x => x.status = .cancelled) = true := by
    decide +kernel
  obtain ⟨w, hw, hp⟩ := exists_reached hrun
  simp only [Option.any_eq_true, decide_eq_true_eq] at hp
  obtain ⟨x, hx, hstatus⟩ := hp
  refine ⟨w, x, hw, hx, hstatus, fun hzero => ?_⟩
  have hactive := ((generation_ends_once defaults w hw 12).2.1 x hx).mp hzero
  rw [hstatus] at hactive
  cases hactive

end FastRep.Reports
