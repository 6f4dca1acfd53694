/-
The failure throttle of a report.

Its specification is a history: the terminal failures of the report with
their times, and its successes (`outcomes`). The first failure after a
success, or after the window has passed, opens a window; a report is
locked when the failures of a window reach the limit (`Exhausted`).

# The row

The code keeps the opening and the count in the row and rewrites them with
every failure, from a read before its update. Nothing comes between: only
a failure or a success of the report writes the fields, either settles a
generation that is PROCESSING, and the report has no other than the one
being failed (`Runs.settles_or`, `Runs.one_active`). `Runs.windowed` is the
invariant: the row has the window of the history.

# The times

The failures of a report lie in the past, in order, and before the claims of
the generation it has under way (`Timed`). A failure is recorded with a time
that was read before its commit; the order of the failures is kept since the
next generation is claimed after the last one was failed.

# The lock

The same rule keeps a lock alive: a locked report has no active generation,
and a start waits for the lock to end (`Runs.locked`). `throttle_sound` says
that a failure locks the report exactly when it exhausts the window, that
nothing starts before the lock ends, and that taking a generation back
without a failure leaves the fields alone. Operations on other reports, of
the same user too, may come anywhere in between.
-/
import FastRep.Reports.Proofs.Lifecycle
import FastRep.Reports.Proofs.ProviderBudget
import FastRep.Reports.Proofs.Reached

namespace FastRep.Reports

open FastRep.Txn

variable {cfg : Config} {start S S' : RState} {t : Tid} {s : Site} {ws : List (Write Row Key)}
  {w : RWorld} {r g tok : Id}

-- ============================================================== histories

/-- How a generation of a report ended. -/
inductive Outcome where
  | failure (time : Time)
  | success
  deriving DecidableEq, Repr

/-- `failedRetryWindowMs`. -/
def Config.failedRetryWindow (cfg : Config) : Time := cfg.reportFailedRetryWindowMinutes * 60000

/-- The current window of a history, newest outcome first: when it was
opened, and the failures in it. -/
def window (cfg : Config) : List Outcome → Option (Time × Nat)
  | [] => none
  | .success :: _ => none
  | .failure now :: rest =>
      match window cfg rest with
      | some (opened, n) =>
          if now ≤ opened + cfg.failedRetryWindow then some (opened, n + 1) else some (now, 1)
      | none => some (now, 1)

/-- The history ends in at least as many failures as are allowed, all
within the window that the first of them opened. -/
def Exhausted (cfg : Config) (history : List Outcome) : Prop :=
  ∃ (opening : Time) (failures : List Time) (rest : List Outcome), history = failures.map .failure ++ .failure opening :: rest ∧
    (∀ time ∈ failures, opening ≤ time ∧ time ≤ opening + cfg.failedRetryWindow) ∧
    (∀ opened n, window cfg rest = some (opened, n) → opened + cfg.failedRetryWindow < opening) ∧
    cfg.reportFailedRetryLimit ≤ failures.length + 1

/-- Failures later in the history are not earlier in time. -/
def Sorted (history : List Outcome) : Prop :=
  history.Pairwise fun o o' => ∀ time time', o = .failure time → o' = .failure time' → time' ≤ time

/-- A window is a run of failures at the end of the history. -/
theorem window_split {history : List Outcome} {opening : Time} {n : Nat}
    (h : window cfg history = some (opening, n)) :
    ∃ (failures : List Time) (rest : List Outcome), history = failures.map .failure ++ .failure opening :: rest ∧
      failures.length + 1 = n ∧ (∀ time ∈ failures, time ≤ opening + cfg.failedRetryWindow) ∧
      ∀ opened n, window cfg rest = some (opened, n) →
        opened + cfg.failedRetryWindow < opening := by
  induction history generalizing n with
  | nil => cases h
  | cons o history ih =>
      cases o with
      | success => cases h
      | failure now =>
          unfold window at h
          split at h
          next opened m hwindow =>
              split at h
              next hle =>
                  simp only [Option.some.injEq, Prod.mk.injEq] at h
                  obtain ⟨rfl, rfl⟩ := h
                  obtain ⟨failures, rest, rfl, hlen, hall, hclosed⟩ := ih hwindow
                  refine ⟨now :: failures, rest, rfl, by rw [List.length_cons, hlen], ?_, hclosed⟩
                  intro time htime
                  rcases List.mem_cons.mp htime with rfl | htime
                  · exact hle
                  · exact hall time htime
              next hlt =>
                  simp only [Option.some.injEq, Prod.mk.injEq] at h
                  obtain ⟨rfl, rfl⟩ := h
                  refine ⟨[], history, rfl, rfl, by simp, ?_⟩
                  intro opened' n' hwindow'
                  cases hwindow.symm.trans hwindow'
                  exact Nat.lt_of_not_le hlt
          next hwindow =>
              simp only [Option.some.injEq, Prod.mk.injEq] at h
              obtain ⟨rfl, rfl⟩ := h
              refine ⟨[], history, rfl, rfl, by simp, ?_⟩
              intro opened' n' hwindow'
              cases hwindow.symm.trans hwindow'

/-- Such a run of failures is the window. -/
theorem window_of_split {failures : List Time} {rest : List Outcome} {opening : Time}
    (hall : ∀ time ∈ failures, time ≤ opening + cfg.failedRetryWindow)
    (hclosed : ∀ opened n, window cfg rest = some (opened, n) →
      opened + cfg.failedRetryWindow < opening) :
    window cfg (failures.map .failure ++ .failure opening :: rest)
      = some (opening, failures.length + 1) := by
  induction failures with
  | nil =>
      rw [List.map_nil, List.nil_append, window]
      split
      next opened n hwindow =>
          have hlt := hclosed opened n hwindow
          rw [if_neg (Nat.not_le_of_lt hlt)]
          rfl
      next => rfl
  | cons time failures ih =>
      rw [List.map_cons, List.cons_append, window,
        ih fun time' h => hall time' (List.mem_cons_of_mem _ h)]
      dsimp only
      rw [if_pos (hall time List.mem_cons_self)]
      rfl

/-- The lock condition of the specification, on the window. -/
theorem exhausted_iff {history : List Outcome} (hsorted : Sorted history) :
    Exhausted cfg history ↔
      ∃ opening n, window cfg history = some (opening, n) ∧ cfg.reportFailedRetryLimit ≤ n := by
  constructor
  · rintro ⟨opening, failures, rest, rfl, hall, hclosed, hlimit⟩
    exact ⟨opening, _, window_of_split (fun time h => (hall time h).2) hclosed, hlimit⟩
  · rintro ⟨opening, n, hwindow, hlimit⟩
    obtain ⟨failures, rest, rfl, rfl, hall, hclosed⟩ := window_split hwindow
    refine ⟨opening, failures, rest, rfl, fun time h => ⟨?_, hall time h⟩, hclosed, hlimit⟩
    have hpair := (List.pairwise_append.mp hsorted).2.2 (.failure time)
      (List.mem_map_of_mem h) (.failure opening) List.mem_cons_self
    exact hpair time opening rfl rfl

-- ============================================================ one commit

/-- The end of a generation of the report, at an entry. -/
def outcomeOf (reportId : Id) (e : REntry) : Option Outcome :=
  match e.event with
  | .commit (.failGeneration _ _) (.update (.generation y) :: _) =>
      if y.reportId = reportId then y.completedAt.map .failure else none
  | .commit (.finalizeSuccess _ _) (.insert (.output o) :: _) =>
      if o.reportId = reportId then some .success else none
  | _ => none

/-- The history of the report, newest outcome first. -/
def outcomes (reportId : Id) (trace : List REntry) : List Outcome :=
  trace.filterMap (outcomeOf reportId)

/-- The throttle fields of two versions of a report are equal. -/
structure SameThrottle (x y : Report) : Prop where
  lockedUntil : y.reportGenerationLockedUntil = x.reportGenerationLockedUntil
  windowStartedAt : y.reportFailureWindowStartedAt = x.reportFailureWindowStartedAt
  count : y.reportConsecutiveFailureCount = x.reportConsecutiveFailureCount

theorem SameThrottle.refl (x : Report) : SameThrottle x x := ⟨rfl, rfl, rfl⟩

/-- What is the same throttle in two steps is the same. -/
theorem SameThrottle.trans {x y z : Report} (h : SameThrottle x y) (h' : SameThrottle y z) :
    SameThrottle x z :=
  ⟨h'.lockedUntil.trans h.lockedUntil, h'.windowStartedAt.trans h.windowStartedAt,
    h'.count.trans h.count⟩

/-- Only a failure and a success write the throttle fields. -/
theorem ReportChange.throttle {x y : Report} (h : ReportChange cfg S r s (some x) (some y)) :
    SameThrottle x y ∨ ∃ g tok, s = .failGeneration g tok ∨ s = .finalizeSuccess g tok := by
  cases h with
  | failed g tok => exact Or.inr ⟨g, tok, Or.inl rfl⟩
  | published g tok => exact Or.inr ⟨g, tok, Or.inr rfl⟩
  | _ => exact Or.inl ⟨rfl, rfl, rfl⟩

/-- A commit that ends the generation, of the report. -/
def Settles (S : RState) (s : Site) (ws : List (Write Row Key)) (r g : Id) : Prop :=
  (∃ z, report? S.db r = some z) ∧
  ∃ tok x, generation? S.db g = some x ∧ x.reportId = r ∧ x.ownedBy tok = true ∧
    (s = .failGeneration g tok ∧ ws ≠ [] ∨ s = .finalizeSuccess g tok)

/-- The generation a commit ends is not active after it. -/
theorem Settles.ended (hstart : Begins start) (hruns : Runs (contract cfg start) S)
    (h : Settles S s ws r g) (heff : Effect cfg t s ws S) :
    ∃ y, generation? (applyAll ws S.db) g = some y ∧ y.status.active = false := by
  obtain ⟨-, tok, x, -, -, -, ⟨rfl, hne⟩ | rfl⟩ := h
  · obtain ⟨_, _, _, _, _, _, _, _, -, -, -, -, -, -, -, hgen, -⟩ := heff.failed hne
    exact ⟨_, hgen, rfl⟩
  · obtain ⟨_, _, _, _, _, -, -, -, -, -, -, -, -, -, hgen, -⟩ :=
      Runs.finalized hstart hruns heff
    exact ⟨_, hgen, rfl⟩

/-- A commit ends a generation of the report, or adds nothing to its
history and leaves its throttle fields. -/
theorem Runs.settles_or (hstart : Begins start) (hruns : Runs (contract cfg start) S)
    (heff : Effect cfg t s ws S) : (∃ g, Settles S s ws r g) ∨
      (outcomeOf r ⟨t, .commit s ws, S.toScene⟩ = none ∧
        ∀ x y, report? S.db r = some x → report? (applyAll ws S.db) r = some y →
          SameThrottle x y) := by
  have hother : (∀ g tok, s ≠ .failGeneration g tok ∧ s ≠ .finalizeSuccess g tok) →
      outcomeOf r ⟨t, .commit s ws, S.toScene⟩ = none ∧
        ∀ x y, report? S.db r = some x → report? (applyAll ws S.db) r = some y →
          SameThrottle x y := by
    intro hs
    refine ⟨?_, fun x y hx hy => ?_⟩
    · unfold outcomeOf
      split
      next g tok _ _ hev =>
          cases hev
          exact absurd rfl (hs g tok).1
      next g tok _ _ hev =>
          cases hev
          exact absurd rfl (hs g tok).2
      next => rfl
    · rcases heff.report r with hsame | hchange
      · cases hx.symm.trans (hsame.symm.trans hy)
        exact SameThrottle.refl x
      · rw [hx, hy] at hchange
        rcases hchange.throttle with h | ⟨g, tok, h | h⟩
        · exact h
        · exact absurd h (hs g tok).1
        · exact absurd h (hs g tok).2
  cases s with
  | failGeneration g tok =>
      by_cases hne : ws = []
      · subst hne
        refine Or.inr ⟨rfl, fun x y hx hy => ?_⟩
        cases hx.symm.trans hy
        exact SameThrottle.refl x
      · obtain ⟨x, z, _, _, _, _, _, _, hx, howned, hz, -, -, -, hws, hgen, hreport⟩ :=
          heff.failed hne
        by_cases hr : x.reportId = r
        · exact Or.inl ⟨g, ⟨z, hr ▸ hz⟩, tok, x, hx, hr, howned, Or.inl ⟨rfl, hne⟩⟩
        · refine Or.inr ⟨?_, fun y y' hy hy' => ?_⟩
          · rw [hws]
            exact if_neg hr
          · rw [hreport, if_neg hr] at hy'
            cases hy.symm.trans hy'
            exact SameThrottle.refl y
  | finalizeSuccess g tok =>
      obtain ⟨x, z, o, _, _, hx, howned, hz, -, hor, -, -, -, hws, hgen, hreport⟩ :=
        Runs.finalized hstart hruns heff
      by_cases hr : x.reportId = r
      · exact Or.inl ⟨g, ⟨z, hr ▸ hz⟩, tok, x, hx, hr, howned, Or.inr rfl⟩
      · refine Or.inr ⟨?_, fun y y' hy hy' => ?_⟩
        · rw [hws]
          exact if_neg (hor ▸ hr)
        · rw [hreport, if_neg hr] at hy'
          cases hy.symm.trans hy'
          exact SameThrottle.refl y
  | _ => exact Or.inr (hother fun _ _ => ⟨by simp, by simp⟩)

/-- A row keeps its throttle fields while a generation of the report is
active and does not change. -/
theorem Runs.throttle_kept (hstart : Begins start) (hruns : Runs (contract cfg start) S)
    (hm : Move (contract cfg start) t S S') {z : ReportGeneration}
    (hz : generation? S.db g = some z) (hz' : generation? S'.db g = some z)
    (hactive : z.status.active = true) {x : Report} (hx : report? S.db z.reportId = some x) :
    ∃ y, report? S'.db z.reportId = some y ∧ SameThrottle x y := by
  rcases hm.commit_or with ⟨s, ws, hC, -, rfl⟩ | ⟨hdb, -⟩
  · cases hy : report? (applyAll ws S.db) z.reportId with
    | none =>
        -- the report is deleted with its generations
        rcases hC.1.report z.reportId with hsame | hchange
        · rw [hsame, hx] at hy
          cases hy
        · rw [hx, hy] at hchange
          cases hchange
          have hgone := Effect.deleted_generation hC.1 hz rfl
          cases hz'.symm.trans hgone
    | some y =>
        refine ⟨y, hy, ?_⟩
        rcases Runs.settles_or (r := z.reportId) hstart hruns hC.1 with ⟨g', hsettles⟩ | ⟨-, hsame⟩
        · -- it would end the generation itself
          obtain ⟨y', hy', hended⟩ := hsettles.ended hstart hruns hC.1
          obtain ⟨-, tok, x', hx', hr', howned, -⟩ := hsettles
          obtain rfl := Runs.one_active hstart hruns z.reportId g g' z x' hz hx' rfl hr' hactive
            (active_of_owned howned)
          cases hz'.symm.trans hy'
          exact absurd hactive (by simp [hended])
        · exact hsame x y hx hy
  · exact ⟨x, hdb ▸ hx, SameThrottle.refl x⟩

/-- What `failGeneration` read of the report is what its update finds. -/
theorem Runs.read_current (hstart : Begins start) (hruns : Runs (contract cfg start) S)
    {x : ReportGeneration} (hx : generation? S.db g = some x) (hactive : x.status.active = true)
    {read : Report} {hasOutput : Bool}
    (hsince : Since S (fun d => generation? d g = some x)
      (fun d => reportWithOutput x.reportId d = some (read, hasOutput)))
    {y : Report} (hy : report? S.db x.reportId = some y) : SameThrottle read y := by
  obtain ⟨newer, e, older, htr, hread, hsame⟩ := hsince
  obtain ⟨r, hr, hpair⟩ := Option.map_eq_some_iff.mp hread
  cases hpair
  have hkept : ∃ y, report? S.db x.reportId = some y ∧ SameThrottle read y := by
    refine hruns.after (I := fun newer S => (∀ e' ∈ newer ++ [e], generation? e'.before.db g = some x) →
      generation? S.db g = some x → ∃ y, report? S.db x.reportId = some y ∧ SameThrottle read y)
      hstart.trace htr ?_ ?_ hsame hx
    · intro S₀ S₁ hpast _ hall hx₁
      have hx₀ : generation? S₀.db g = some x := by
        rw [show S₀.db = e.before.db by rw [← hpast.scene]]
        exact hall e (by simp)
      exact Runs.throttle_kept hstart hpast.runs hpast.move hx₀ hx₁ hactive
        (by rw [show S₀.db = e.before.db by rw [← hpast.scene]]; exact hr)
    · intro j S S' newer added hruns htr ih hm hadded hall hx'
      have hx : generation? S.db g = some x := by
        rcases hm.commit_or with ⟨s, ws, -, -, rfl⟩ | ⟨hdb, -⟩
        · have hentry : added = [⟨j, .commit s ws, S.toScene⟩] :=
            List.append_cancel_right hadded.symm
          subst hentry
          exact hall _ List.mem_cons_self
        · exact hdb ▸ hx'
      obtain ⟨y, hy, hsame⟩ := ih (fun e' he' => hall e' (by
        rw [List.append_assoc]
        exact List.mem_append_right _ he')) hx
      obtain ⟨y', hy', hsame'⟩ := Runs.throttle_kept hstart hruns hm hx hx' hactive hy
      exact ⟨y', hy', hsame.trans hsame'⟩
  obtain ⟨y', hy', hsame⟩ := hkept
  cases hy.symm.trans hy'
  exact hsame

-- =========================================================== the history

theorem outcomes_cons_of_quiet {ev : Event Row Error Site Call Req Res}
    (hev : ∀ s ws, ev ≠ .commit s ws) {sc : Scene Row Site Req Env} {trace : List REntry} :
    outcomes r (⟨t, ev, sc⟩ :: trace) = outcomes r trace := by
  rw [outcomes, List.filterMap_cons_none]
  · rfl
  · unfold outcomeOf
    split
    next h => exact absurd h (hev _ _)
    next h => exact absurd h (hev _ _)
    next => rfl

/-- A history begins after its report. -/
theorem Runs.outcome_created (hstart : Begins start) (h : Runs (contract cfg start) S)
    {e : REntry} (he : e ∈ S.trace) {o : Outcome} (ho : outcomeOf r e = some o) :
    Created S r := by
  obtain ⟨t, ev, before⟩ := e
  cases ev with
  | commit s ws =>
      obtain ⟨S₀, hruns₀, hscene, hsuffix, heff⟩ := Runs.effect_at hstart h he rfl
      cases hscene
      rcases Runs.settles_or (r := r) hstart hruns₀ heff with ⟨_, ⟨z, hz⟩, -⟩ | ⟨hnone, -⟩
      · exact ((hruns₀.persists (lasting_report hstart r)).created z hz).mono hsuffix
      · cases ho.symm.trans hnone
  | _ => cases ho

/-- A claim of the generation. -/
def ClaimOf (e : REntry) (g : Id) : Prop :=
  ∃ tok ws, e.event = .commit (.claim g tok) ws ∧ ws ≠ []

theorem Runs.claim_created (hstart : Begins start) (h : Runs (contract cfg start) S)
    {e : REntry} (he : e ∈ S.trace) (hclaim : ClaimOf e g) : Created S g := by
  obtain ⟨tok, ws, hev, hne⟩ := hclaim
  obtain ⟨S₀, -, hscene, -, heff⟩ := Runs.effect_at hstart h he hev
  rcases heff with rfl | ⟨x, _, _, _, hx, -⟩
  · exact absurd rfl hne
  · exact (h.persists (lasting_generation hstart g)).seen e he x (by rw [← hscene]; exact hx)

/-- The failures of a report lie in the past, in order, and before the
claims of the generation it has under way. -/
structure Timed (S : RState) (r : Id) : Prop where
  sorted : Sorted (outcomes r S.trace)
  past : ∀ time, .failure time ∈ outcomes r S.trace → time ≤ S.clock
  claims : ∀ time, .failure time ∈ outcomes r S.trace → ∀ g x, generation? S.db g = some x →
    x.reportId = r → x.status.active = true → ∀ e ∈ S.trace, ClaimOf e g → time ≤ e.before.clock

/-- After the end of a generation its report has none under way. -/
theorem Settles.idle (hstart : Begins start) (hruns : Runs (contract cfg start) S)
    (h : Settles S s ws r g) (heff : Effect cfg t s ws S) (g' : Id) {y : ReportGeneration}
    (hy : generation? (applyAll ws S.db) g' = some y) (hr : y.reportId = r) :
    y.status.active = false := by
  by_contra hactive
  rw [Bool.not_eq_false] at hactive
  obtain ⟨z, hz, hended⟩ := h.ended hstart hruns heff
  obtain ⟨-, tok, x, hx, hxr, howned, hsite⟩ := h
  rcases heff.active hy hactive with ⟨x', hx', hactive', hr'⟩ | ⟨u, k, rfl, -⟩
  · obtain rfl := Runs.one_active hstart hruns r g g' x x' hx hx' hxr (hr'.trans hr)
      (active_of_owned howned) hactive'
    cases hz.symm.trans hy
    exact absurd hactive (by simp [hended])
  · rcases hsite with ⟨h, -⟩ | h <;> cases h

/-- What a failure records, and when it was claimed. -/
theorem Runs.failure (hstart : Begins start) (hruns : Runs (contract cfg start) S)
    (h : Effect cfg t (.failGeneration g tok) ws S) (hne : ws ≠ []) :
    ∃ x now hasOutput z, generation? S.db g = some x ∧ x.ownedBy tok = true ∧
      report? S.db x.reportId = some z ∧ ClaimedBefore S t g tok now ∧ now ≤ S.clock ∧
      outcomeOf x.reportId ⟨t, .commit (.failGeneration g tok) ws, S.toScene⟩
        = some (.failure now) ∧
      report? (applyAll ws S.db) x.reportId = some (z.failedAt cfg now hasOutput z) := by
  obtain ⟨x, z, _, _, now, read, hasOutput, _, hx, howned, hz, hsince, hclaimed, hnow, hws, -,
    hreport⟩ := h.failed hne
  have hsame := Runs.read_current hstart hruns hx (active_of_owned howned) hsince hz
  refine ⟨x, now, hasOutput, z, hx, howned, hz, hclaimed, hnow, ?_, ?_⟩
  · rw [hws]
    exact if_pos rfl
  · rw [hreport, if_pos rfl]
    unfold Report.failedAt
    rw [hsame.windowStartedAt, hsame.count]

/-- In every state of a run the window of a report was opened before now. -/
theorem Runs.timed (hstart : Begins start) (h : Runs (contract cfg start) S) (r : Id) :
    Timed S r := by
  refine h.invariant (I := (Timed · r)) ?_ ?_
  · have htrace : (contract cfg start).start.trace = [] := hstart.trace
    constructor
    · rw [htrace]
      exact List.Pairwise.nil
    · rw [htrace]
      intro _ h
      cases h
    · rw [htrace]
      intro _ h
      cases h
  · intro j S S' hruns ih hm
    have hclock : S.clock ≤ S'.clock := hm.clock_le
    rcases hm.commit_or with ⟨s, ws, hC, -, rfl⟩ | ⟨hdb, htr⟩
    · let entry : REntry := ⟨j, .commit s ws, S.toScene⟩
      have htr : (S.commit j s ws).trace = entry :: S.trace := rfl
      rcases Runs.settles_or (r := r) (t := j) hstart hruns hC.1 with ⟨g, hsettles⟩ | ⟨hnone, -⟩
      · -- the generation under way ends
        have hbefore : ∀ time, outcomeOf r entry = some (.failure time) →
            time ≤ S.clock ∧ ∀ time', .failure time' ∈ outcomes r S.trace → time' ≤ time := by
          intro time htime
          obtain ⟨-, tok, x, hx, rfl, howned, ⟨rfl, hne⟩ | rfl⟩ := hsettles
          · obtain ⟨x', now, _, _, hx', -, -, ⟨e, he, -, hclaim, hle⟩, hnow, hfailure, -⟩ :=
              Runs.failure hstart hruns hC.1 hne
            cases hx.symm.trans hx'
            cases hfailure.symm.trans htime
            refine ⟨hnow, fun time' htime' => Nat.le_trans ?_ hle⟩
            exact ih.claims time' htime' g x hx rfl (active_of_owned howned) e he ⟨tok, hclaim⟩
          · obtain ⟨_, _, _, _, _, -, -, -, -, hor, -, -, -, hws, -⟩ :=
              Runs.finalized hstart hruns hC.1
            simp only [entry, outcomeOf, hws] at htime
            split at htime <;> cases htime
        have hnew : outcomes r (S.commit j s ws).trace
            = (outcomeOf r entry).toList ++ outcomes r S.trace := by
          rw [htr, outcomes, List.filterMap_cons]
          cases outcomeOf r entry <;> rfl
        have hmem : ∀ time, .failure time ∈ outcomes r (S.commit j s ws).trace →
            time ≤ S.clock := by
          intro time htime
          rw [hnew] at htime
          rcases List.mem_append.mp htime with htime | htime
          · exact (hbefore time (Option.mem_toList.mp htime)).1
          · exact ih.past time htime
        refine ⟨?_, hmem, ?_⟩
        · rw [hnew]
          refine List.pairwise_append.mpr ⟨?_, ih.sorted, ?_⟩
          · cases outcomeOf r entry
            · exact List.Pairwise.nil
            · exact List.pairwise_singleton _ _
          · rintro o ho o' ho' time time' rfl rfl
            exact (hbefore time (Option.mem_toList.mp ho)).2 time' ho'
        · intro time _ g' y hy hr hactive
          have hidle := hsettles.idle hstart hruns hC.1 _ hy hr
          exact absurd hactive (by simp [hidle])
      · have hsame : outcomes r (S.commit j s ws).trace = outcomes r S.trace := by
          rw [htr, outcomes, List.filterMap_cons_none hnone]
          rfl
        refine ⟨hsame ▸ ih.sorted, fun time htime => ih.past time (hsame ▸ htime), ?_⟩
        intro time htime g y hy hr hactive e he hclaim
        rw [hsame] at htime
        rcases hC.1.active hy hactive with ⟨x, hx, hxa, hxr⟩ | ⟨u, k, rfl, hne⟩
        · rcases List.mem_cons.mp he with rfl | he
          · exact ih.past time htime
          · exact ih.claims time htime g x hx (hxr.trans hr) hxa e he hclaim
        · -- nothing has claimed a generation that is just started
          rcases List.mem_cons.mp he with rfl | he
          · obtain ⟨_, _, hev, -⟩ := hclaim
            cases hev
          · obtain ⟨e', he', hcreated⟩ := Runs.claim_created hstart hruns he hclaim
            refine absurd ?_ (Runs.not_created_again hstart hruns hm he' hcreated)
            cases ws with
            | nil => exact absurd rfl hne
            | cons _ _ => exact List.mem_singleton_self g
    · have hsame : outcomes r S'.trace = outcomes r S.trace := by
        rcases htr with htr | ⟨ev, hev, htr⟩
        · rw [htr]
        · rw [htr]
          exact outcomes_cons_of_quiet hev
      refine ⟨hsame ▸ ih.sorted, fun time htime => ?_, ?_⟩
      · exact Nat.le_trans (ih.past time (hsame ▸ htime)) hclock
      · intro time htime g x hx hr hactive e he hclaim
        rw [hsame] at htime
        rw [hdb] at hx
        rcases htr with htr | ⟨ev, hev, htr⟩
        · exact ih.claims time htime g x hx hr hactive e (htr ▸ he) hclaim
        · rw [htr] at he
          rcases List.mem_cons.mp he with rfl | he
          · obtain ⟨_, _, h, -⟩ := hclaim
            exact absurd h (hev _ _)
          · exact ih.claims time htime g x hx hr hactive e he hclaim

-- =============================================================== the row

/-- The row has the window of the history. -/
def Windowed (cfg : Config) (S : RState) (r : Id) : Prop :=
  ∀ x, report? S.db r = some x →
    (x.reportFailureWindowStartedAt.map fun opened => (opened, x.reportConsecutiveFailureCount))
      = window cfg (outcomes r S.trace)

theorem SameThrottle.window {x y : Report} (h : SameThrottle x y) :
    (y.reportFailureWindowStartedAt.map fun opened => (opened, y.reportConsecutiveFailureCount))
      = x.reportFailureWindowStartedAt.map fun opened =>
          (opened, x.reportConsecutiveFailureCount) := by
  rw [h.windowStartedAt, h.count]

/-- The window of a history was opened by one of its failures. -/
theorem opened_mem {history : List Outcome} {opened : Time} {n : Nat}
    (h : window cfg history = some (opened, n)) : .failure opened ∈ history := by
  obtain ⟨_, _, rfl, -⟩ := window_split h
  simp

/-- One more failure takes the row from the window of the history to the
next, and locks it at the limit. -/
theorem failedAt_window {history : List Outcome} {now : Time} {hasOutput : Bool} {x : Report}
    (hwindow : (x.reportFailureWindowStartedAt.map fun opened =>
      (opened, x.reportConsecutiveFailureCount)) = window cfg history)
    (hpast : ∀ time, .failure time ∈ history → time ≤ now) :
    ∃ opened n, window cfg (.failure now :: history) = some (opened, n) ∧
      (x.failedAt cfg now hasOutput x).reportFailureWindowStartedAt = some opened ∧
      (x.failedAt cfg now hasOutput x).reportConsecutiveFailureCount = n ∧
      (x.failedAt cfg now hasOutput x).reportGenerationLockedUntil
        = if cfg.reportFailedRetryLimit ≤ n then some (now + cfg.reportFailedLockMinutes * 60000)
          else none := by
  cases hstarted : x.reportFailureWindowStartedAt with
  | none =>
      rw [hstarted] at hwindow
      refine ⟨now, 1, by rw [window, ← hwindow]; rfl, ?_⟩
      simp [Report.failedAt, hstarted]
  | some opened =>
      rw [hstarted, Option.map_some] at hwindow
      have hle : opened ≤ now := hpast opened (opened_mem hwindow.symm)
      by_cases hwithin : now ≤ opened + cfg.failedRetryWindow
      · have hwithin' : now - opened ≤ cfg.reportFailedRetryWindowMinutes * 60000 :=
          Nat.sub_le_iff_le_add'.mpr hwithin
        refine ⟨opened, x.reportConsecutiveFailureCount + 1, ?_, ?_⟩
        · rw [window, ← hwindow]
          exact if_pos hwithin
        · simp [Report.failedAt, hstarted, hle, hwithin']
      · have hwithin' : ¬ now - opened ≤ cfg.reportFailedRetryWindowMinutes * 60000 :=
          fun h => hwithin (Nat.sub_le_iff_le_add'.mp h)
        refine ⟨now, 1, ?_, ?_⟩
        · rw [window, ← hwindow]
          exact if_neg hwithin
        · simp [Report.failedAt, hstarted, hwithin']

/-- The failures of the report are no later than the one recorded now. -/
theorem Runs.failures_le (hstart : Begins start) (hruns : Runs (contract cfg start) S)
    {x : ReportGeneration} {now : Time} (hx : generation? S.db g = some x)
    (howned : x.ownedBy tok = true) (hclaimed : ClaimedBefore S t g tok now) :
    ∀ time, .failure time ∈ outcomes x.reportId S.trace → time ≤ now := by
  intro time htime
  obtain ⟨e, he, -, hclaim, hle⟩ := hclaimed
  exact Nat.le_trans ((Runs.timed hstart hruns x.reportId).claims time htime g x hx rfl
    (active_of_owned howned) e he ⟨tok, hclaim⟩) hle

/-- In every state of a run the count of a report is that of the failures in
its window. -/
theorem Runs.windowed (hstart : Begins start) (h : Runs (contract cfg start) S) (r : Id) :
    Windowed cfg S r := by
  refine h.invariant (I := (Windowed cfg · r)) ?_ ?_
  · intro x hx
    have hnone := report?_eq_none.mpr (hstart.unused.find?_eq_none (k := .report r)
      (by simp [Key.table]) (by simp [Key.table]))
    exact absurd (hx.symm.trans hnone) (by simp)
  · intro j S S' hruns ih hm y hy
    rcases hm.commit_or with ⟨s, ws, hC, -, rfl⟩ | ⟨hdb, htr⟩
    · let entry : REntry := ⟨j, .commit s ws, S.toScene⟩
      have htr : (S.commit j s ws).trace = entry :: S.trace := rfl
      change report? (applyAll ws S.db) r = some y at hy
      rw [htr, outcomes, List.filterMap_cons]
      rcases Runs.settles_or (r := r) (t := j) hstart hruns hC.1 with
        ⟨g, -, tok, x, hx, rfl, howned, ⟨rfl, hne⟩ | rfl⟩ | ⟨hnone, hsame⟩
      · obtain ⟨x', now, hasOutput, z, hx', -, hz, hclaimed, -, hfailure, hafter⟩ :=
          Runs.failure hstart hruns hC.1 hne
        cases hx.symm.trans hx'
        cases hafter.symm.trans hy
        obtain ⟨opened, n, hwindow, hstarted, hcount, -⟩ := failedAt_window
          (ih z hz) (Runs.failures_le hstart hruns hx howned hclaimed)
        rw [show outcomeOf x.reportId entry = some (.failure now) from hfailure]
        rw [hstarted, hcount]
        exact hwindow.symm
      · obtain ⟨x', z, o, _, _, hx', -, -, -, hor, -, -, -, hws, -, hreport⟩ :=
          Runs.finalized hstart hruns hC.1
        cases hx.symm.trans hx'
        rw [hreport, if_pos rfl] at hy
        cases hy
        rw [show outcomeOf x.reportId entry = some .success by
          simp only [entry, outcomeOf, hws]
          exact if_pos hor]
        rfl
      · rw [show outcomeOf r entry = none from hnone]
        cases hbefore : report? S.db r with
        | some x => exact (hsame x y hbefore hy).window.trans (ih x hbefore)
        | none =>
            -- the report is new, and so is its history
            obtain ⟨u, title, notes, createdAt, rfl⟩ := hC.1.new_report hbefore hy
            have hempty : outcomes r S.trace = [] := by
              refine List.filterMap_eq_nil_iff.mpr fun e he => ?_
              by_contra hsome
              obtain ⟨o, ho⟩ := Option.ne_none_iff_exists'.mp hsome
              obtain ⟨e', he', hcreated⟩ := Runs.outcome_created hstart hruns he ho
              exact Runs.not_created_again hstart hruns hm he' hcreated
                (hC.1.creates_report hbefore hy S.toScene)
            change _ = window cfg (outcomes r S.trace)
            rw [hempty]
            rfl
    · have hsame : outcomes r S'.trace = outcomes r S.trace := by
        rcases htr with htr | ⟨ev, hev, htr⟩
        · rw [htr]
        · rw [htr]
          exact outcomes_cons_of_quiet hev
      rw [hsame]
      exact ih y (hdb ▸ hy)

-- ============================================================== the lock

/-- The report is locked until `L` and has no generation under way. -/
structure Locked (S : RState) (r : Id) (L : Time) : Prop where
  lock : ∀ x, report? S.db r = some x → x.reportGenerationLockedUntil = some L
  idle : ∀ g x, generation? S.db g = some x → x.reportId = r → x.status.active = false

/-- The lock a failure of the report sets. -/
def lockAt (r : Id) (e : REntry) : Option Time :=
  match outcomeOf r e, e.event with
  | some (.failure _), .commit _ ws =>
      (report? (applyAll ws e.before.db) r).bind (·.reportGenerationLockedUntil)
  | _, _ => none

/-- A failure of the report, in the run. -/
theorem Runs.failure_at (hstart : Begins start) (h : Runs (contract cfg start) S)
    {newer older : List REntry} {e : REntry} (htr : S.trace = newer ++ e :: older) {now : Time}
    (ho : outcomeOf r e = some (.failure now)) :
    ∃ S₀ g tok ws, Runs (contract cfg start) S₀ ∧ S₀.toScene = e.before ∧ S₀.trace = older ∧
      e.event = .commit (.failGeneration g tok) ws ∧ Settles S₀ (.failGeneration g tok) ws r g ∧
      Effect cfg e.tid (.failGeneration g tok) ws S₀ ∧ ws ≠ [] := by
  obtain ⟨S₀, S₁, hpast, holder⟩ := h.at hstart.trace htr
  obtain ⟨t, ev, before⟩ := e
  cases ev with
  | commit s ws =>
      obtain ⟨hC, -⟩ := hpast.commit rfl
      cases hpast.scene
      rcases Runs.settles_or (r := r) hstart hpast.runs hC.1 with ⟨g, hsettles⟩ | ⟨hnone, -⟩
      · have hsettles' := hsettles
        obtain ⟨-, tok, x, hx, rfl, howned, ⟨rfl, hne⟩ | rfl⟩ := hsettles'
        · exact ⟨S₀, g, tok, ws, hpast.runs, rfl, holder, rfl, hsettles, hC.1, hne⟩
        · obtain ⟨_, _, _, _, _, -, -, -, -, -, -, -, -, hws, -⟩ :=
            Runs.finalized hstart hpast.runs hC.1
          simp only [outcomeOf, hws] at ho
          split at ho <;> cases ho
      · cases ho.symm.trans hnone
  | _ => cases ho

/-- A lock stays as it is until it ends, and nothing is started before. -/
theorem Runs.locked (hstart : Begins start) (h : Runs (contract cfg start) S)
    {newer older : List REntry} {e : REntry} (htr : S.trace = newer ++ e :: older) {L : Time}
    (hL : lockAt r e = some L) (hclock : S.clock < L) :
    Locked S r L ∧ ∀ e' ∈ newer, startedOn e' ≠ some r := by
  obtain ⟨now, ho⟩ : ∃ now, outcomeOf r e = some (.failure now) := by
    unfold lockAt at hL
    split at hL
    next now _ _ ho _ => exact ⟨now, ho⟩
    next => cases hL
  obtain ⟨S₀, g, tok, ws, hruns₀, hscene, holder, hev, hsettles, heff, hne⟩ :=
    Runs.failure_at hstart h htr ho
  have hcreated : Created S₀ r := by
    obtain ⟨⟨z, hz⟩, -⟩ := hsettles
    exact (hruns₀.persists (lasting_report hstart r)).created z hz
  refine h.after (I := fun newer S => S.clock < L →
    Locked S r L ∧ ∀ e' ∈ newer, startedOn e' ≠ some r) hstart.trace htr ?_ ?_ hclock
  · intro S₀' S₁ hpast holder' _
    obtain ⟨hC, rfl⟩ := hpast.commit hev
    refine ⟨⟨fun x hx => ?_, fun g' x hx hr => ?_⟩, fun e' he' => (by cases he')⟩
    · have hx' : report? (applyAll ws e.before.db) r = some x := by
        rw [← hpast.scene]
        exact hx
      unfold lockAt at hL
      rw [ho, hev] at hL
      simpa [hx'] using hL
    · refine hsettles.idle hstart hruns₀ heff g' ?_ hr
      rw [show S₀.db = S₀'.db by rw [show S₀.db = e.before.db by rw [← hscene], ← hpast.scene]]
      exact hx
  · intro j S S' newer added hruns htr ih hm hadded hclock'
    have hclock : S.clock < L := Nat.lt_of_le_of_lt hm.clock_le hclock'
    obtain ⟨hlocked, hstarts⟩ := ih hclock
    rcases hm.commit_or with ⟨s, ws', hC, -, rfl⟩ | ⟨hdb, htr'⟩
    · have hentry : added = [⟨j, .commit s ws', S.toScene⟩] :=
        List.append_cancel_right hadded.symm
      subst hentry
      have hstart' : ∀ u k g, s = .start u r k g → ws' = [] := by
        rintro u k g rfl
        rcases hC.1 with ⟨h, -⟩ | ⟨x, _, _, -, -, -, -, hx, -, -, -, -, -, hunlocked, -⟩
        · exact h
        · exact absurd (hunlocked L (hlocked.lock x hx)) (Nat.not_le_of_lt hclock)
      refine ⟨⟨fun y hy => ?_, fun g' y hy hr => ?_⟩, fun e' he' => ?_⟩
      · change report? (applyAll ws' S.db) r = some y at hy
        rcases Runs.settles_or (r := r) hstart hruns hC.1 with
          ⟨g', -, tok', x, hx, hr, howned, -⟩ | ⟨-, hsame⟩
        · exact absurd (active_of_owned howned) (by simp [hlocked.idle g' x hx hr])
        · cases hbefore : report? S.db r with
          | some x => rw [(hsame x y hbefore hy).lockedUntil, hlocked.lock x hbefore]
          | none =>
              -- the report would be created a second time
              obtain ⟨e', he', hid⟩ := hcreated
              rw [holder] at he'
              have hmem : e' ∈ S.trace := by
                rw [htr]
                exact List.mem_append_right _ (List.mem_cons_of_mem _ he')
              exact absurd (hC.1.creates_report hbefore hy S.toScene)
                (Runs.not_created_again hstart hruns hm hmem hid)
      · by_contra hactive
        rw [Bool.not_eq_false] at hactive
        rcases hC.1.active hy hactive with ⟨x, hx, hxa, hxr⟩ | ⟨u, k, rfl, hne'⟩
        · exact absurd hxa (by simp [hlocked.idle g' x hx (hxr.trans hr)])
        · subst hr
          exact hne' (hstart' u k g' rfl)
      · rcases List.mem_cons.mp he' with rfl | he'
        · intro hstarted
          unfold startedOn at hstarted
          split at hstarted
          next u i k g' w ws₀ hev' =>
              cases hev'
              cases hstarted
              cases hstart' u k g' rfl
          next => cases hstarted
        · exact hstarts e' he'
    · refine ⟨⟨hdb ▸ hlocked.lock, hdb ▸ hlocked.idle⟩, fun e' he' => ?_⟩
      rcases List.mem_append.mp he' with he' | he'
      · rcases htr' with htr' | ⟨ev, hev', htr'⟩
        · rw [htr'] at hadded
          have hnil : added = [] := by simpa using hadded
          rw [hnil] at he'
          cases he'
        · rw [htr'] at hadded
          have hentry : added = [⟨j, ev, S.toScene⟩] :=
            List.append_cancel_right hadded.symm
          rw [hentry] at he'
          cases List.mem_singleton.mp he'
          intro hstarted
          unfold startedOn at hstarted
          split at hstarted
          next h => exact hev' _ _ h
          next => cases hstarted
      · exact hstarts e' he'

-- ============================================================ the throttle

/-- The operations that take a generation back without a failure. -/
def Site.takesBack : Site → Bool
  | .cancel _ | .compensateQueueFailure _ | .prepareRetry _ _ => true
  | _ => false

/-- The throttle of a report, over a run. -/
structure ThrottleSound (cfg : Config) (S : RState) (r : Id) : Prop where
  /-- A lock a failure sets stays until it ends. Before that the report has
  no generation under way, and none is created. -/
  locked : ∀ newer e older L, S.trace = newer ++ e :: older → lockAt r e = some L →
    S.clock < L → Locked S r L ∧ ∀ e' ∈ newer, startedOn e' ≠ some r
  /-- A failure sets the lock exactly when it exhausts the window. -/
  set : ∀ newer e older time, S.trace = newer ++ e :: older →
    outcomeOf r e = some (.failure time) →
    ((lockAt r e).isSome = true ↔ Exhausted cfg (outcomes r (e :: older))) ∧
    ∀ L, lockAt r e = some L → L = time + cfg.reportFailedLockMinutes * 60000
  others : ∀ e ∈ S.trace, ∀ s ws, e.event = .commit s ws → s.takesBack = true →
    ∀ x y, report? e.before.db r = some x → report? (applyAll ws e.before.db) r = some y →
    SameThrottle x y

/-- A failure locks the report exactly when it exhausts the window. -/
theorem Runs.lock_set (hstart : Begins start) (h : Runs (contract cfg start) S)
    {newer older : List REntry} {e : REntry} (htr : S.trace = newer ++ e :: older) {time : Time}
    (ho : outcomeOf r e = some (.failure time)) :
    ((lockAt r e).isSome = true ↔ Exhausted cfg (outcomes r (e :: older))) ∧
    ∀ L, lockAt r e = some L → L = time + cfg.reportFailedLockMinutes * 60000 := by
  obtain ⟨S₀, g, tok, ws, hruns₀, hscene, rfl, hev, ⟨-, _, x, hx, rfl, -⟩, heff, hne⟩ :=
    Runs.failure_at hstart h htr ho
  obtain ⟨x', now, hasOutput, z, hx', howned, hz, hclaimed, -, hfailure, hafter⟩ :=
    Runs.failure hstart hruns₀ heff hne
  cases hx.symm.trans hx'
  have hentry : (⟨e.tid, .commit (.failGeneration g tok) ws, S₀.toScene⟩ : REntry) = e := by
    rw [hscene, ← hev]
  rw [hentry, ho] at hfailure
  cases hfailure
  obtain ⟨opened, n, hwindow, -, -, hlock⟩ := failedAt_window
    (Runs.windowed hstart hruns₀ x.reportId z hz)
    (Runs.failures_le hstart hruns₀ hx howned hclaimed)
  have hset : lockAt x.reportId e = if cfg.reportFailedRetryLimit ≤ n
      then some (time + cfg.reportFailedLockMinutes * 60000) else none := by
    unfold lockAt
    rw [ho, hev, ← hlock]
    dsimp only
    rw [← hscene, show S₀.toScene.db = S₀.db from rfl, hafter]
    rfl
  have houtcomes : outcomes x.reportId (e :: S₀.trace)
      = .failure time :: outcomes x.reportId S₀.trace := List.filterMap_cons_some ho
  have hsorted : Sorted (outcomes x.reportId (e :: S₀.trace)) := by
    have hsuffix : e :: S₀.trace <:+ S.trace := ⟨newer, htr.symm⟩
    exact (Runs.timed hstart h x.reportId).sorted.sublist (hsuffix.sublist.filterMap _)
  constructor
  · rw [exhausted_iff hsorted, houtcomes, hwindow, hset]
    constructor
    · intro hsome
      by_cases hlimit : cfg.reportFailedRetryLimit ≤ n
      · exact ⟨opened, n, rfl, hlimit⟩
      · rw [if_neg hlimit] at hsome
        cases hsome
    · rintro ⟨_, _, heq, hlimit⟩
      cases heq
      rw [if_pos hlimit]
      rfl
  · intro L hL
    rw [hset] at hL
    split at hL <;> cases hL
    rfl

/-- The failure throttle is sound in every run. -/
theorem throttle_sound (h : Reached cfg w) (r : Id) : ThrottleSound cfg w.shared r := by
  obtain ⟨start, hstart, hruns⟩ := h.runs
  refine ⟨fun newer e older L htr hL hclock => Runs.locked hstart hruns htr hL hclock,
    fun newer e older time htr ho => Runs.lock_set hstart hruns htr ho, ?_⟩
  intro e he s ws hev hback x y hx hy
  obtain ⟨S₀, -, hscene, -, heff⟩ := Runs.effect_at hstart hruns he hev
  have hx₀ : report? S₀.db r = some x := by
    rw [← hscene] at hx
    exact hx
  have hy₀ : report? (applyAll ws S₀.db) r = some y := by
    rw [← hscene] at hy
    exact hy
  rcases heff.report r with hsame | hchange
  · cases hx₀.symm.trans (hsame.symm.trans hy₀)
    exact SameThrottle.refl x
  · rw [hx₀, hy₀] at hchange
    rcases hchange.throttle with h | ⟨g, tok, rfl | rfl⟩
    · exact h
    · cases hback
    · cases hback

/-- One failure locks a report. -/
def oneFailure : Config := { defaults with reportFailedRetryLimit := 1 }

/-- The only attempt of a generation fails. -/
def failedOnce : List (Action Req Choice) :=
  generationStarted ++ .spawn 4 (.process 12 1 1) :: steps 4 28
    ++ .answer 4 (.failed dependencyError) :: steps 4 18

/-- Where one failure is as many as are allowed, one failure locks the report.
-/
theorem throttle_sound_locked : ∃ w, Reached oneFailure w ∧
    outcomes 10 w.shared.trace = [.failure 0] ∧
    (w.shared.trace.filterMap (lockAt 10)) = [3600000] ∧ w.shared.clock < 3600000 ∧
    ThrottleSound oneFailure w.shared 10 := by
  have hrun : (sampleWorld.runAll (app oneFailure) failedOnce).any (fun w =>
      outcomes 10 w.shared.trace = [.failure 0] &&
        w.shared.trace.filterMap (lockAt 10) = [3600000] && w.shared.clock < 3600000) = true := by
    decide +kernel
  obtain ⟨w, hw, hp⟩ := exists_reached hrun
  simp only [Bool.and_eq_true, decide_eq_true_eq] at hp
  exact ⟨w, hw, hp.1.1, hp.1.2, hp.2, throttle_sound hw 10⟩

end FastRep.Reports
