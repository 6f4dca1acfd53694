/-
What becomes of the stale attempts when the next one is started.

Closing them, the look at the budget and the insert share one transaction.
A call that inserts an attempt closes every stale one; a call that finds the
budget used up throws out of the transaction and takes the closings back.

`stale_attempts_closed` is the equivalence, for every ledger, maximum, scope
and time: the stale attempts are closed exactly where a slot is left, or where
there are none. Calls that throw for another reason are not considered: one
that finds an attempt alive has nothing to say about the others, and a
database may refuse anything.
-/
import FastRep.Reports.Proofs.Attempting
import FastRep.Reports.Proofs.Reached
import FastRep.Txn.Proofs.Alone

namespace FastRep.Reports

open FastRep.Txn

variable {cfg : Config} {v : Visit Call Choice} {i i' : Nat} {R R' : Rest Row Env}
  {g tok : Id} {operation : GenerationProviderOperation} {assetId : Option Id}
  {provider model : String} {leaseExpiresAt now : Time} {d d' : Db Row}

-- ============================================================ the ledger

/-- An attempt of the scope that is under way past its lease. -/
def Expired (g : Id) (operation : GenerationProviderOperation) (assetId : Option Id) (now : Time)
    (x : GenerationProviderAttempt) : Prop :=
  inScope g operation assetId x = true ∧ x.status = .started ∧ x.leaseExpiresAt ≤ now

instance : Decidable (Expired g operation assetId now x) :=
  inferInstanceAs (Decidable (_ ∧ _ ∧ _))

/-- Of the attempts of one ledger, the other has the expired ones closed and
the rest as they are. -/
def ClosesStale (g : Id) (operation : GenerationProviderOperation) (assetId : Option Id)
    (now : Time) (d d' : Db Row) : Prop :=
  ∀ x, attempt? d x.id = some x →
    attempt? d' x.id = some (if Expired g operation assetId now x then x.stale now else x)

/-- Nothing of the scope is alive. -/
def NoneAlive (g : Id) (operation : GenerationProviderOperation) (assetId : Option Id)
    (now : Time) (d : Db Row) : Prop :=
  ∀ x ∈ scopeAttempts g operation assetId d, x.status = .started → x.leaseExpiresAt ≤ now

/-- A ledger that stays as it is has its stale attempts closed where there are
none. -/
theorem closesStale_self : ClosesStale g operation assetId now d d ↔
    ∀ x ∈ scopeAttempts g operation assetId d, ¬ Expired g operation assetId now x := by
  refine ⟨fun h x hx hexpired => ?_, fun h x hx => ?_⟩
  · obtain ⟨hstored, -⟩ := mem_scopeAttempts.mp hx
    have hclosed := h x hstored
    rw [if_pos hexpired, hstored] at hclosed
    have hstatus := congrArg GenerationProviderAttempt.status (Option.some.inj hclosed)
    rw [hexpired.2.1] at hstatus
    cases hstatus
  · rw [if_neg fun hexpired => h x (mem_scopeAttempts.mpr ⟨hx, hexpired.1⟩) hexpired]
    exact hx

/-- The inserted attempt is none of the stored ones. -/
theorem ne_of_attempt?_eq_none {id : AttemptKey} {x : GenerationProviderAttempt}
    (hnew : attempt? d id = none) (hx : attempt? d x.id = some x) :
    Key.attempt x.id ≠ Key.attempt id := by
  intro he
  rw [Key.attempt.inj he, hnew] at hx
  cases hx

/-- A call that inserts an attempt closes the stale ones. -/
theorem closesStale_of_opens {id : AttemptKey} {ws : List (Write Row Key)}
    (h : Opens cfg g tok operation assetId now d id ws) :
    ClosesStale g operation assetId now d (applyAll ws d) := by
  obtain ⟨y, hws, hopen, -, -, -, -, hnew, -⟩ := h
  have hstored : ∀ z ∈ (scopeAttempts g operation assetId d).filter fun x => x.status = .started,
      attempt? d z.id = some z := fun z hz => (mem_scopeAttempts.mp (List.mem_filter.mp hz).1).1
  intro x hx
  split
  next hexpired =>
      have hmem : x ∈ (scopeAttempts g operation assetId d).filter fun x => x.status = .started :=
        List.mem_filter.mpr ⟨mem_scopeAttempts.mpr ⟨hx, hexpired.1⟩, decide_eq_true hexpired.2.1⟩
      have hnodup : (ws.map Write.target).Nodup := by
        rw [hws, List.map_append, List.map_map, List.nodup_append]
        refine ⟨?_, List.nodup_singleton _, ?_⟩
        · have hall : ((scopeAttempts g operation assetId d).map (·.id)).Nodup :=
            nodup_scopeAttempts
          have hids := hall.sublist ((List.filter_sublist (p := fun x => x.status = .started)).map _)
          have hkeys := hids.map fun a b he => Key.attempt.inj he
          rwa [List.map_map] at hkeys
        · intro k hk k' hk'
          obtain ⟨z, hz, rfl⟩ := List.mem_map.mp hk
          obtain rfl := List.mem_singleton.mp hk'
          exact ne_of_attempt?_eq_none (x := z) hnew (hstored z hz)
      have hfind := find?_applyAll_of_mem hnodup (w := .update (.attempt (x.stale now)))
        (hws ▸ List.mem_append_left _ (List.mem_map.mpr ⟨x, hmem, rfl⟩)) (d := d)
      exact attempt?_eq_some.mpr hfind
  next hexpired =>
      rw [attempt?_congr (find?_applyAll_ne (fun w hw he => ?_) d)]
      · exact hx
      · rw [hws] at hw
        rcases List.mem_append.mp hw with hw | hw
        · obtain ⟨z, hz, rfl⟩ := List.mem_map.mp hw
          obtain ⟨hscope, hstarted⟩ := List.mem_filter.mp hz
          have hzx : z.id = x.id := Key.attempt.inj he
          have hsame := hstored z hz
          rw [hzx, hx] at hsame
          cases hsame
          exact hexpired ⟨(mem_scopeAttempts.mp hscope).2, of_decide_eq_true hstarted,
            hopen _ hz⟩
        · obtain rfl := List.mem_singleton.mp hw
          exact ne_of_attempt?_eq_none hnew hx he.symm

-- ============================================================== the call

/-- A call that finds no live attempt, and returns an attempt or throws that
the budget is used up, closes the stale attempts exactly where a slot is left
or there are none. -/
theorem stale_attempts_closed {r : Except Error AttemptKey}
    (h : (startAttempt cfg g operation provider model tok leaseExpiresAt assetId).Ends v i R r
      i' R')
    (hr : (∃ id, r = .ok id) ∨ r = .error budgetExhausted)
    (hnone : NoneAlive g operation assetId (v.times i) R.db) :
    ClosesStale g operation assetId (v.times i) R.db R'.db ↔
      (scopeAttempts g operation assetId R.db).length < maximumAttempts cfg operation ∨
      ∀ x ∈ scopeAttempts g operation assetId R.db,
        ¬ Expired g operation assetId (v.times i) x := by
  obtain ⟨body, hbody, hends⟩ := startAttempt_body cfg g tok operation provider model
    leaseExpiresAt assetId
  rw [hbody] at h
  obtain ⟨hresult, hleft⟩ := Prog.Ends.of_tx h
  obtain ⟨hopens, hthrows⟩ := hends (v.times i) R.db
  rcases hr with ⟨id, rfl⟩ | rfl
  · have hopen := hopens.run hresult
    rw [hleft, Tx.left_of_ok hresult]
    refine iff_of_true (closesStale_of_opens hopen) (Or.inl ?_)
    obtain ⟨y, -, -, hbudget, -⟩ := hopen
    exact hbudget
  · rw [hleft, Tx.left_of_error hresult, closesStale_self]
    refine ⟨Or.inr, fun hslots => hslots.resolve_left (not_lt.mpr ?_)⟩
    rcases (hthrows hnone).run hresult with ⟨-, hbudget⟩ | ⟨f, hdb⟩
    · exact hbudget
    · cases hdb

-- ==================================================== a concrete ledger

/-- The generation 12 of report 10. -/
def ledgerGeneration : ReportGeneration :=
  newGeneration 12 10 1 "k" (inputSnapshot (newReport 10 1 "t" (some "n") 0) sampleUser [] 0)
    .draft 0

/-- An attempt at its report whose lease ends at 5. -/
def ledgerAttempt (attemptNumber : Nat) (status : GenerationProviderAttemptStatus) :
    GenerationProviderAttempt where
  id := ⟨12, .reportGeneration, none, attemptNumber⟩
  status
  provider := "openai"
  model := "gpt-5-mini"
  providerRequestId := none
  inputTokens := none
  outputTokens := none
  audioDurationSeconds := none
  errorCode := none
  processingToken := 13
  leaseExpiresAt := 5
  startedAt := 0
  completedAt := none

/-- The generation with some of its attempts. -/
def ledgerRest (attempts : List GenerationProviderAttempt) : Rest Row Env where
  db := attempts.foldl (fun d x => d.put (.attempt x)) ((((Db.empty.put (.user sampleUser)).put
    (.report (newReport 10 1 "t" (some "n") 0))).put (.generation ledgerGeneration)))
  env := ⟨[], [], []⟩
  nextId := 14

/-- Everything happens at the time 5. -/
def ledgerVisit : Visit Call Choice := ⟨fun _ => .done, fun _ => 5, fun _ _ _ => Nat.le_refl 5⟩

/-- One expired attempt is closed. -/
theorem stale_attempts_closed_one :
    ∃ id i' R', (startAttempt defaults 12 .reportGeneration "openai" "gpt-5-mini" 13 15 none).Ends
        ledgerVisit 0 (ledgerRest [ledgerAttempt 1 .started]) (.ok id) i' R' ∧
      ClosesStale 12 .reportGeneration none 5 (ledgerRest [ledgerAttempt 1 .started]).db R'.db := by
  obtain ⟨r, i', R', hends, hok⟩ := Prog.exists_ends (q := fun x => x.1.isOk)
    (p := startAttempt defaults 12 .reportGeneration "openai" "gpt-5-mini" 13 15 none)
    (v := ledgerVisit) (i := 0) (R := ledgerRest [ledgerAttempt 1 .started]) (by decide +kernel)
  cases r with
  | error e => cases hok
  | ok id =>
      refine ⟨id, i', R', hends, (stale_attempts_closed hends (Or.inl ⟨id, rfl⟩) ?_).mpr
        (Or.inl ?_)⟩
      · unfold NoneAlive
        decide +kernel
      · decide +kernel

/-- Of two attempts the second is expired: the call throws and leaves it. -/
theorem stale_attempt_left_open :
    ∃ i' R', (startAttempt defaults 12 .reportGeneration "openai" "gpt-5-mini" 13 15 none).Ends
        ledgerVisit 0 (ledgerRest [ledgerAttempt 1 .failed, ledgerAttempt 2 .started])
        (.error budgetExhausted) i' R' ∧
      NoneAlive 12 .reportGeneration none 5
        (ledgerRest [ledgerAttempt 1 .failed, ledgerAttempt 2 .started]).db ∧
      ¬ ClosesStale 12 .reportGeneration none 5
        (ledgerRest [ledgerAttempt 1 .failed, ledgerAttempt 2 .started]).db R'.db := by
  obtain ⟨r, i', R', hends, hq⟩ := Prog.exists_ends (q := fun x =>
      (match x.1 with
        | .ok _ => false
        | .error e => e = budgetExhausted)
      && attempt? x.2.2.db ⟨12, .reportGeneration, none, 2⟩ = some (ledgerAttempt 2 .started))
    (p := startAttempt defaults 12 .reportGeneration "openai" "gpt-5-mini" 13 15 none)
    (v := ledgerVisit) (i := 0)
    (R := ledgerRest [ledgerAttempt 1 .failed, ledgerAttempt 2 .started]) (by decide +kernel)
  obtain ⟨hr, hopen⟩ := (Bool.and_eq_true _ _).mp hq
  cases r with
  | ok id => cases hr
  | error e =>
      obtain rfl := of_decide_eq_true hr
      refine ⟨i', R', hends, ?_, fun hclosed => ?_⟩
      · unfold NoneAlive
        decide +kernel
      · have hstale := hclosed (ledgerAttempt 2 .started) (by decide +kernel)
        have hkept : attempt? R'.db (ledgerAttempt 2 .started).id
            = some (ledgerAttempt 2 .started) := of_decide_eq_true hopen
        rw [hkept] at hstale
        exact absurd hstale (by decide +kernel)

end FastRep.Reports
