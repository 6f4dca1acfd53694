/-
The rules for programs that run alone, and that the machine can run them
so.

`Prog.Ends` says what a program that runs alone ends in; its rules follow
the program: one for each kind of step, one for a bind, one for each way to
handle an error. A transaction goes through its body once more
(`Prog.Ends.of_tx`), which `Tx.Yields` of Consistency evaluates.

# The machine

`World.runs_alone` takes the machine through such a run, one step at a time:
no other thread holds a lock, so nothing waits, and the clock is moved on to
each reading. A world at rest (`World.Still`) is at rest again when the run is
over, so `World.runs_visits` can let the next visit follow in a thread of its
own.
-/
import FastRep.Txn.Alone
import FastRep.Txn.Proofs.Consistency

namespace FastRep.Txn

variable {Row Key Index ε Site Call Choice Env Req Res α β : Type}
  [DecidableEq Key] [Schema Row Key Index] [Services Call Choice Env]
  {v : Visit Call Choice} {i i' : Nat} {R R' : Rest Row Env}

-- =============================================================== the rules

/-- A program that runs alone ends in a result and leaves a state. -/
def Prog.Ends (p : Prog Row ε Site Call α) (v : Visit Call Choice) (i : Nat)
    (R : Rest Row Env) (r : Except ε α) (i' : Nat) (R' : Rest Row Env) : Prop :=
  p.alone v i R = some (r, i', R')

/-- A run that can be evaluated ends in what is found of it. -/
theorem Prog.exists_ends {p : Prog Row ε Site Call α} {q : Except ε α × Nat × Rest Row Env → Bool}
    (h : (p.alone v i R).any q = true) : ∃ r i' R', p.Ends v i R r i' R' ∧ q (r, i', R') = true :=
  have ⟨x, hx, hq⟩ := (Option.any_eq_true _ _).mp h
  ⟨x.1, x.2.1, x.2.2, hx, hq⟩

/-- What follows a program goes on where it ends. -/
theorem Prog.alone_handle {p : Prog Row ε Site Call α} {r : Except ε α}
    (hp : p.Ends v i R r i' R') (q : Except ε α → Prog Row ε Site Call β) :
    (p.handle (fun a => q (.ok a)) fun e => q (.error e)).alone v i R
      = (q r).alone v i' R' := by
  induction p generalizing i R with
  | pure a => cases hp; rfl
  | throw e => cases hp; rfl
  | now k ih => exact ih _ hp
  | uuid k ih => exact ih _ hp
  | enter s k ih => exact ih hp
  | call x k ih =>
      simp only [Prog.Ends, Prog.alone, Prog.handle] at hp ⊢
      split at hp
      next a env hperform =>
          exact ih a hp
      next => cases hp
  | tx iso s body k ih =>
      simp only [Prog.Ends, Prog.alone, Prog.handle] at hp ⊢
      split at hp
      next b hb =>
          exact ih (.ok b) hp
      next e he =>
          exact ih (.error e) hp

/-- Where a program does not get to its end, nothing after it does. -/
theorem Prog.alone_handle_of_none {p : Prog Row ε Site Call α} (hp : p.alone v i R = none)
    (f : α → Prog Row ε Site Call β) (g : ε → Prog Row ε Site Call β) :
    (p.handle f g).alone v i R = none := by
  induction p generalizing i R with
  | pure a => cases hp
  | throw e => cases hp
  | now k ih => exact ih _ hp
  | uuid k ih => exact ih _ hp
  | enter s k ih => exact ih hp
  | call x k ih =>
      simp only [Prog.alone, Prog.handle] at hp ⊢
      split at hp
      next a env hperform =>
          exact ih a hp
      next => rfl
  | tx iso s body k ih =>
      simp only [Prog.alone, Prog.handle] at hp ⊢
      split at hp
      next b hb =>
          exact ih (.ok b) hp
      next e he =>
          exact ih (.error e) hp

/-- The program after a bind, for a value or an error. -/
def Prog.andThen (f : α → Prog Row ε Site Call β) : Except ε α → Prog Row ε Site Call β
  | .ok a => f a
  | .error e => .throw e

/-- What goes on after a value ends as the continuation does, from where the
first part left off. -/
theorem Prog.Ends.bind {p : Prog Row ε Site Call α} {f : α → Prog Row ε Site Call β} {a : α}
    {r : Except ε β} {i'' : Nat} {R'' : Rest Row Env} (hp : p.Ends v i R (.ok a) i' R')
    (hf : (f a).Ends v i' R' r i'' R'') : (p >>= f).Ends v i R r i'' R'' :=
  (Prog.alone_handle hp (Prog.andThen f)).trans hf

/-- A value of a bind comes from a value of what precedes it. -/
theorem Prog.Ends.of_bind {p : Prog Row ε Site Call α} {f : α → Prog Row ε Site Call β} {b : β}
    (h : (p >>= f).Ends v i R (.ok b) i' R') :
    ∃ a i₁ R₁, p.Ends v i R (.ok a) i₁ R₁ ∧ (f a).Ends v i₁ R₁ (.ok b) i' R' := by
  cases hp : p.alone v i R with
  | none => cases (Prog.alone_handle_of_none hp f Prog.throw).symm.trans h
  | some o =>
      obtain ⟨r, i₁, R₁⟩ := o
      have hrest := (Prog.alone_handle hp (Prog.andThen f)).symm.trans h
      cases r with
      | ok a => exact ⟨a, i₁, R₁, hp, hrest⟩
      | error e => cases hrest

theorem Prog.Ends.bind_error {p : Prog Row ε Site Call α} {f : α → Prog Row ε Site Call β}
    {e : ε} (hp : p.Ends v i R (.error e) i' R') : (p >>= f).Ends v i R (.error e) i' R' :=
  Prog.alone_handle hp (Prog.andThen f)

/-- An attempt ends in the result, whichever it is. -/
theorem Prog.Ends.attempt {p : Prog Row ε Site Call α} {r : Except ε α}
    (hp : p.Ends v i R r i' R') : p.attempt.Ends v i R (.ok r) i' R' :=
  Prog.alone_handle hp fun r => .pure r

/-- A handler does not run after a value. -/
theorem Prog.Ends.catch {p : Prog Row ε Site Call α} {h : ε → Prog Row ε Site Call α} {a : α}
    (hp : p.Ends v i R (.ok a) i' R') : (p.catch h).Ends v i R (.ok a) i' R' :=
  Prog.alone_handle hp fun
    | .ok a => .pure a
    | .error e => h e

theorem Prog.Ends.pure {a : α} : (Pure.pure a : Prog Row ε Site Call α).Ends v i R (.ok a) i R :=
  rfl

theorem Prog.Ends.throw {e : ε} :
    (Prog.throw e : Prog Row ε Site Call α).Ends v i R (.error e) i R := rfl

/-- A reading of the clock is one step, and reads the visit's time of that
step. -/
theorem Prog.Ends.clock :
    (Prog.clock : Prog Row ε Site Call Nat).Ends v i R (.ok (v.times i)) (i + 1) R := rfl

/-- A drawn id is the next one, and takes no step. -/
theorem Prog.Ends.uuid : (randomUUID : Prog Row ε Site Call Nat).Ends v i R (.ok R.nextId) i
    { R with nextId := R.nextId + 1 } := rfl

/-- Entering a function is no step of its own. -/
theorem Prog.Ends.enter {p : Prog Row ε Site Call α} {s : Site} {r : Except ε α}
    (hp : p.Ends v i R r i' R') : (Prog.enter s p).Ends v i R r i' R' := hp

/-- A call is one step, answered with what the visit has for it. -/
theorem Prog.Ends.await {x : Call} {a : Services.Answer x} {env : Env}
    (h : Services.perform x (v.answer x) (v.times i) R.env = some (a, env)) :
    (await x : Prog Row ε Site Call (Services.Answer x)).Ends v i R (.ok a) (i + 1)
      { R with env } := by
  simp only [Prog.Ends, FastRep.Txn.await, Prog.alone, h]

/-- A stored result ends as it is. -/
theorem Prog.Ends.settle {r : Except ε α} :
    (Prog.settle r : Prog Row ε Site Call α).Ends v i R r i R := by
  cases r <;> rfl

/-- A transaction that yields writes commits them in one step. -/
theorem Prog.Ends.commits {s : Site} {body : Tx Row ε α} {a : α} {ws : List (Write Row Key)}
    (h : body.Yields (v.times i) R.db a ws) :
    (transaction s body : Prog Row ε Site Call α).Ends v i R (.ok a) (i + 1)
      { R with db := applyAll ws R.db } := by
  simp only [Prog.Ends, transaction, Prog.alone_tx, h.result, h.writes]
  rfl

theorem Prog.Ends.commits_serializable {s : Site} {body : Tx Row ε α} {a : α}
    {ws : List (Write Row Key)} (h : body.Yields (v.times i) R.db a ws) :
    (serializable s body : Prog Row ε Site Call α).Ends v i R (.ok a) (i + 1)
      { R with db := applyAll ws R.db } := by
  simp only [Prog.Ends, serializable, Prog.alone_tx, h.result, h.writes]
  rfl

/-- A transaction that throws is rolled back, and leaves nothing. -/
theorem Prog.Ends.fails {s : Site} {body : Tx Row ε α} {e : ε}
    (h : (body.run (v.times i) R.db).result = .error e) :
    (transaction s body : Prog Row ε Site Call α).Ends v i R (.error e) (i + 1) R := by
  simp only [Prog.Ends, transaction, Prog.alone_tx, h]
  rfl

/-- What a body that ran at one moment leaves of the database. -/
def Tx.left (body : Tx Row ε β) (n : Nat) (d d' : Db Row) : Db Row :=
  match (body.run n d).result with
  | .ok _ => applyAll (body.run n d).writes d
  | .error _ => d'

/-- A body that succeeds leaves its writes. -/
theorem Tx.left_of_ok {body : Tx Row ε β} {n : Nat} {d d' : Db Row} {b : β}
    (h : (body.run n d).result = .ok b) : body.left n d d' = applyAll (body.run n d).writes d := by
  simp only [Tx.left, h]

/-- A body that throws leaves what was there. -/
theorem Tx.left_of_error {body : Tx Row ε β} {n : Nat} {d d' : Db Row} {e : ε}
    (h : (body.run n d).result = .error e) : body.left n d d' = d' := by
  simp only [Tx.left, h]

/-- What a transaction ends in is what its body ends in. -/
theorem Prog.Ends.of_tx {iso : Isolation} {s : Site} {body : Tx Row ε α} {r : Except ε α}
    (h : (Prog.tx iso s body Prog.settle : Prog Row ε Site Call α).Ends v i R r i' R') :
    (body.run (v.times i) R.db).result = r ∧ R'.db = body.left (v.times i) R.db R.db := by
  simp only [Prog.Ends, Prog.alone_tx] at h
  split at h
  next b hb =>
      cases h
      exact ⟨hb, (Tx.left_of_ok hb).symm⟩
  next e he =>
      cases h
      exact ⟨he, (Tx.left_of_error he).symm⟩

-- ============================================================ the machine

section Machine

variable [DecidableEq Index] [DbErrors ε] {app : App Row ε Site Call Req Res} {t : Tid}
  {w₀ w : World Row ε Site Call Req Res}

omit [DecidableEq Key] [DbErrors ε] in
/-- A thread that alone holds locks never waits for one. -/
theorem Shared.free_of_own {S : Shared Row ε Site Call Req Res} [DecidableEq Key]
    (h : ∀ l ∈ S.locks, l.1 = t) (l : Lock Key Index) : S.free t l = true := by
  refine List.all_eq_true.mpr fun l' hl' => ?_
  simp [h l' hl']

/-- The machine is at rest before a time: no lock is held. -/
structure World.Still (w : World Row ε Site Call Req Res) (R : Rest Row Env) (n : Nat) :
    Prop where
  db : w.shared.db = R.db
  env : w.shared.env = R.env
  nextId : w.shared.nextId = R.nextId
  locks : w.shared.locks = []
  clock : w.shared.clock ≤ n

/-- What is reached from a reached state is reached. -/
theorem Reachable.trans {w₁ w₂ : World Row ε Site Call Req Res}
    (h : Reachable app w w₁) (h' : Reachable app w₁ w₂) : Reachable app w w₂ := by
  induction h' with
  | init => exact h
  | step a _ ha ih => exact ih.step a ha

/-- A thread gets somewhere while the others stand still. -/
structure World.Takes (w : World Row ε Site Call Req Res) (app : App Row ε Site Call Req Res)
    (t : Tid) (th : Thread Row ε Site Call Res) (w' : World Row ε Site Call Req Res) : Prop where
  reachable : Reachable app w w'
  thread : w'.threads t = th
  others : ∀ j, j ≠ t → w'.threads j = w.threads j

/-- Two stretches in which only the thread moves make one. -/
theorem World.Takes.trans {th th' : Thread Row ε Site Call Res}
    {w' w'' : World Row ε Site Call Req Res} (h : w.Takes app t th w')
    (h' : w'.Takes app t th' w'') : w.Takes app t th' w'' :=
  ⟨h.reachable.trans h'.reachable, h'.thread, fun j hj => (h'.others j hj).trans (h.others j hj)⟩

/-- One action of the thread. -/
theorem World.Takes.of_apply {a : Action Req Choice} {th : Thread Row ε Site Call Res}
    {S : Shared Row ε Site Call Req Res} (h : w.apply app a = some (w.set t th S)) :
    w.Takes app t th (w.set t th S) :=
  ⟨Reachable.init.step a h, by simp [World.set], fun j hj => by simp [World.set, hj]⟩

variable (app t) in
/-- Time passes. -/
theorem World.Still.wait {n : Nat} (h : w.Still R n) :
    ∃ w', w.Takes app t (w.threads t) w' ∧ w'.Still R n ∧ w'.shared.clock = n := by
  refine ⟨_, ⟨Reachable.init.step (.tick (n - w.shared.clock)) rfl, rfl, fun _ _ => rfl⟩,
    ⟨h.db, h.env, h.nextId, h.locks, ?_⟩, ?_⟩
  · exact (Nat.add_sub_of_le h.clock).le
  · exact Nat.add_sub_of_le h.clock

/-- A transaction body that only this thread holds locks for runs to its
end. -/
theorem World.runs_body {s : Site} {body : Tx Row ε β} {ws : List (Write Row Key)}
    {k : Except ε β → Prog Row ε Site Call Res} (hthread : w.threads t = .inTx s body ws k)
    (hlocks : ∀ l ∈ w.shared.locks, l.1 = t) {d : Db Row} (hd : applyAll ws w.shared.db = d)
    {n : Nat} (hn : w.shared.clock = n) :
    ∃ w', w.Takes app t (.running (k (body.run n d).result)) w' ∧
      w'.Still ⟨body.left n d w.shared.db, w.shared.env, w.shared.nextId⟩ n := by
  have hnone : ∀ {w : World Row ε Site Call Req Res}, (∀ l ∈ w.shared.locks, l.1 = t) →
      (w.shared.locks.filter fun h => h.1 ≠ t) = [] := fun h =>
    List.filter_eq_nil_iff.mpr fun l hl => by simp [h l hl]
  have hfree : ∀ {w : World Row ε Site Call Req Res}, (∀ l ∈ w.shared.locks, l.1 = t) →
      ∀ ls : List (Lock Key Index), ls.all (w.shared.free t) = true := fun h ls =>
    List.all_eq_true.mpr fun l _ => Shared.free_of_own h l
  induction body generalizing w ws d with
  | pure b =>
      refine ⟨_, .of_apply (a := .step t) (S := w.shared.commit t s ws) ?_,
        hd, rfl, rfl, hnone hlocks, hn.le⟩
      simp only [World.apply, World.step, hthread]
      rfl
  | throw e =>
      refine ⟨_, .of_apply (a := .step t) (S := w.shared.rollback t s e) ?_,
        rfl, rfl, rfl, hnone hlocks, hn.le⟩
      simp only [World.apply, World.step, hthread]
      rfl
  | now b ih =>
      have hstep : w.Takes app t (.inTx s (b n) ws k) (w.set t (.inTx s (b n) ws k) w.shared) := by
        refine .of_apply (a := .step t) ?_
        simp only [World.apply, World.step, hthread, hn]
      obtain ⟨w', htakes, hstill⟩ := ih n hstep.thread hlocks hd hn
      exact ⟨w', hstep.trans htakes, hstill⟩
  | later since b ih =>
      have hstep : w.Takes app t (.inTx s (b (max n since)) ws k)
          (w.set t (.inTx s (b (max n since)) ws k) w.shared) := by
        refine .of_apply (a := .step t) ?_
        simp only [World.apply, World.step, hthread, hn]
      obtain ⟨w', htakes, hstill⟩ := ih _ hstep.thread hlocks hd hn
      exact ⟨w', hstep.trans htakes, hstill⟩
  | stmt f b ih =>
      cases hans : (f d).answer with
      | error e =>
          refine ⟨_, .of_apply (a := .step t) (S := w.shared.rollback t s e) ?_,
            ?_, rfl, rfl, hnone hlocks, hn.le⟩
          · simp only [World.apply, World.step, hthread, hd, hans, hfree hlocks, if_true, Tx.run]
          · simp only [Tx.left, Tx.run, hans]
            rfl
      | ok c =>
          obtain ⟨c, ws'⟩ := c
          have hstep : w.Takes app t (.inTx s (b c) (ws ++ ws') k) (w.set t (.inTx s (b c)
              (ws ++ ws') k) (w.shared.ran t s (ws'.flatMap Write.locks))) := by
            refine .of_apply (a := .step t) ?_
            simp only [World.apply, World.step, hthread, hd, hans, hfree hlocks, if_true]
          have hlocks' : ∀ l ∈ (w.set t (.inTx s (b c) (ws ++ ws') k)
              (w.shared.ran t s (ws'.flatMap Write.locks))).shared.locks, l.1 = t := by
            intro l hl
            rcases List.mem_append.mp hl with hl | hl
            · obtain ⟨l', -, rfl⟩ := List.mem_map.mp hl
              rfl
            · exact hlocks l hl
          obtain ⟨w', htakes, hstill⟩ := ih c hstep.thread hlocks'
            (d := applyAll ws' d) (by rw [applyAll_append]; exact congrArg _ hd) hn
          refine ⟨w', ?_, ?_⟩
          · simp only [Tx.run, hans]
            exact hstep.trans htakes
          · refine ⟨hstill.db.trans ?_, hstill.env, hstill.nextId, hstill.locks, hstill.clock⟩
            simp only [Tx.left, Tx.run, hans]
            split
            · rw [applyAll_append]
            · rfl

/-- The machine runs a program alone as the visit says. -/
theorem World.runs_alone {p : Prog Row ε Site Call Res} {r : Except ε Res}
    (h : p.Ends v i R r i' R') (hthread : w.threads t = .running p)
    (hstill : w.Still R (v.times i)) :
    ∃ w', w.Takes app t (.finished r) w' ∧ w'.Still R' (v.times i') := by
  induction p generalizing w i R with
  | pure a =>
      cases h
      refine ⟨_, .of_apply (a := .step t) (S := w.shared.finished t (.ok a)) ?_,
        hstill.db, hstill.env, hstill.nextId, hstill.locks, hstill.clock⟩
      simp only [World.apply, World.step, hthread]
  | throw e =>
      cases h
      refine ⟨_, .of_apply (a := .step t) (S := w.shared.finished t (.error e)) ?_,
        hstill.db, hstill.env, hstill.nextId, hstill.locks, hstill.clock⟩
      simp only [World.apply, World.step, hthread]
  | now k ih =>
      obtain ⟨w₁, hwait, hstill₁, hclock⟩ := hstill.wait app t
      have hstep : w₁.Takes app t (.running (k (v.times i)))
          (w₁.set t (.running (k (v.times i))) w₁.shared) := by
        refine .of_apply (a := .step t) ?_
        simp only [World.apply, World.step, hwait.thread, hthread, hclock]
      obtain ⟨w', htakes, hstill'⟩ := ih _ h hstep.thread ⟨hstill₁.db, hstill₁.env,
        hstill₁.nextId, hstill₁.locks, hstill₁.clock.trans (v.mono (Nat.le_succ i))⟩
      exact ⟨w', (hwait.trans hstep).trans htakes, hstill'⟩
  | uuid k ih =>
      have hstep : w.Takes app t (.running (k R.nextId))
          (w.set t (.running (k R.nextId)) (w.shared.drawn t)) := by
        refine .of_apply (a := .step t) ?_
        simp only [World.apply, World.step, hthread, hstill.nextId]
      obtain ⟨w', htakes, hstill'⟩ := ih _ h hstep.thread ⟨hstill.db, hstill.env,
        congrArg (· + 1) hstill.nextId, hstill.locks, hstill.clock⟩
      exact ⟨w', hstep.trans htakes, hstill'⟩
  | enter s k ih =>
      have hstep : w.Takes app t (.running k)
          (w.set t (.running k) (w.shared.log t (.enter s))) := by
        refine .of_apply (a := .step t) ?_
        simp only [World.apply, World.step, hthread]
      obtain ⟨w', htakes, hstill'⟩ := ih h hstep.thread ⟨hstill.db, hstill.env,
        hstill.nextId, hstill.locks, hstill.clock⟩
      exact ⟨w', hstep.trans htakes, hstill'⟩
  | call x k ih =>
      obtain ⟨w₁, hwait, hstill₁, hclock⟩ := hstill.wait app t
      simp only [Prog.Ends, Prog.alone] at h
      split at h
      next a env hperform =>
          have hstep : w₁.Takes app t (.running (k a))
              (w₁.set t (.running (k a)) (w₁.shared.answered t x (v.answer x) env)) := by
            refine .of_apply (a := .answer t (v.answer x)) ?_
            simp only [World.apply, World.answer, hwait.thread, hthread, hclock, hstill₁.env,
              hperform]
          obtain ⟨w', htakes, hstill'⟩ := ih a h hstep.thread ⟨hstill₁.db, rfl,
            hstill₁.nextId, hstill₁.locks, hstill₁.clock.trans (v.mono (Nat.le_succ i))⟩
          exact ⟨w', (hwait.trans hstep).trans htakes, hstill'⟩
      next => cases h
  | tx iso s body k ih =>
      obtain ⟨w₁, hwait, hstill₁, hclock⟩ := hstill.wait app t
      have hleft : (k (body.run (v.times i) R.db).result).Ends v (i + 1)
          { R with db := body.left (v.times i) R.db R.db } r i' R' := by
        simp only [Prog.Ends, Prog.alone] at h
        simp only [Prog.Ends, Tx.left]
        split at h
        next b hb => rw [hb]; exact h
        next e he => rw [he]; exact h
      -- both kinds of transaction leave the same behind
      have hbody : ∃ w₂, w₁.Takes app t (.running (k (body.run (v.times i) R.db).result)) w₂ ∧
          w₂.Still { R with db := body.left (v.times i) R.db R.db } (v.times i) := by
        have hrunning := hwait.thread.trans hthread
        cases iso with
        | readCommitted =>
            have hbegin : w₁.Takes app t (.inTx s body [] k)
                (w₁.set t (.inTx s body [] k) (w₁.shared.begin t s)) := by
              refine .of_apply (a := .step t) ?_
              simp only [World.apply, World.step, hrunning]
            have hnone : ∀ l ∈ (w₁.set t (.inTx s body [] k)
                (w₁.shared.begin t s)).shared.locks, l.1 = t := by
              intro l hl
              have hl' : l ∈ w₁.shared.locks := hl
              rw [hstill₁.locks] at hl'
              cases hl'
            obtain ⟨w₂, htakes, hstill₂⟩ := World.runs_body hbegin.thread hnone
              (show applyAll [] _ = R.db from hstill₁.db) hclock
            refine ⟨w₂, hbegin.trans htakes, ⟨hstill₂.db.trans ?_, hstill₂.env.trans hstill₁.env,
              hstill₂.nextId.trans hstill₁.nextId, hstill₂.locks, hstill₂.clock⟩⟩
            exact congrArg (body.left (v.times i) R.db) hstill₁.db
        | serializable =>
            have hfree : ∀ ls : List (Lock Key Index), ls.all (w₁.shared.free t) = true :=
              fun ls => List.all_eq_true.mpr fun l _ =>
                Shared.free_of_own (by simp [hstill₁.locks]) l
            cases hres : (body.run (v.times i) R.db).result with
            | ok b =>
                refine ⟨_, .of_apply (a := .step t) (S := w₁.shared.commit t s
                  (body.run (v.times i) R.db).writes) ?_, ?_, hstill₁.env, hstill₁.nextId, ?_,
                  hclock.le⟩
                · simp only [World.apply, World.step, World.atOnce, hrunning, hclock,
                    hstill₁.db, hfree, if_true, hres]
                · simp only [World.set, Shared.commit, Tx.left, hres, hstill₁.db]
                · simp [World.set, Shared.commit, hstill₁.locks]
            | error e =>
                refine ⟨_, .of_apply (a := .step t) (S := w₁.shared.rollback t s e) ?_, ?_,
                  hstill₁.env, hstill₁.nextId, ?_, hclock.le⟩
                · simp only [World.apply, World.step, World.atOnce, hrunning, hclock,
                    hstill₁.db, hfree, if_true, hres]
                · simp only [World.set, Shared.rollback, Shared.log, Tx.left, hres, hstill₁.db]
                · simp [World.set, Shared.rollback, hstill₁.locks]
      obtain ⟨w₂, htakes, hstill₂⟩ := hbody
      obtain ⟨w', htakes', hstill'⟩ := ih _ hleft htakes.thread ⟨hstill₂.db, hstill₂.env,
        hstill₂.nextId, hstill₂.locks, hstill₂.clock.trans (v.mono (Nat.le_succ i))⟩
      exact ⟨w', (hwait.trans htakes).trans htakes', hstill'⟩

/-- The machine serves the visits one after the other, in threads of their
own, and each thread ends in its result. -/
theorem World.runs_visits {q : Req} {vs : List (Visit Call Choice)} {rs : List (Except ε Res)}
    (h : app.visits q vs R = some rs) (hready : ∀ sc, app.ready q sc = true)
    (horder : vs.Pairwise fun v v' => ∀ i, v.times i ≤ v'.times 0) (ht : t ≠ outside)
    (hidle : ∀ j, t ≤ j → w.threads j = .idle) (hstill : ∀ v ∈ vs, w.Still R (v.times 0)) :
    ∃ w', Reachable app w w' ∧ (∀ j, j < t → w'.threads j = w.threads j) ∧
      ∀ k r, rs[k]? = some r → w'.threads (t + k) = .finished r := by
  induction vs generalizing w R rs t with
  | nil =>
      cases h
      exact ⟨w, .init, fun _ _ => rfl, by simp⟩
  | cons v vs ih =>
      simp only [App.visits] at h
      split at h
      next r i' R' hends =>
          obtain ⟨rs', hrest, rfl⟩ := Option.map_eq_some_iff.mp h
          obtain ⟨hlater, horder'⟩ := List.pairwise_cons.mp horder
          have hv := hstill v List.mem_cons_self
          have hspawn : w.Takes app t (.running (app.main q))
              (w.set t (.running (app.main q)) (w.shared.spawned t q)) := by
            refine .of_apply (a := .spawn t q) ?_
            simp [World.apply, hidle t le_rfl, hready, ht]
          obtain ⟨w₁, htakes, hstill₁⟩ := World.runs_alone hends hspawn.thread
            ⟨hv.db, hv.env, hv.nextId, hv.locks, hv.clock⟩
          have hfirst := hspawn.trans htakes
          obtain ⟨w', hreach, hbefore, hafter⟩ := ih (t := t + 1) hrest horder'
            (Nat.succ_ne_zero t)
            (fun j hj => (hfirst.others j (Nat.ne_of_gt hj)).trans
              (hidle j ((Nat.le_succ t).trans hj)))
            fun v' hv' => ⟨hstill₁.db, hstill₁.env, hstill₁.nextId, hstill₁.locks,
              hstill₁.clock.trans (hlater v' hv' i')⟩
          refine ⟨w', hfirst.reachable.trans hreach,
            fun j hj => (hbefore j (Nat.lt_succ_of_lt hj)).trans
              (hfirst.others j (Nat.ne_of_lt hj)),
            fun k r' hr' => ?_⟩
          cases k with
          | zero =>
              cases hr'
              exact (hbefore t (Nat.lt_succ_self t)).trans hfirst.thread
          | succ k =>
              have hk := hafter k r' hr'
              rwa [Nat.add_assoc, Nat.add_comm 1 k] at hk
      next => cases h

end Machine

end FastRep.Txn
