/-
Soundness: a run of the machine in which every request is safe is a
sequence of moves that keep the contract.

# The invariant

The invariant of the induction (`World.Safe`) holds one safe program for
each running thread. A step of a thread is a move for all others, and
safety is stable under these (`TxSafe.rely`, `ProgSafe.rely`); its own
program is safe again by the definition of safety at the node it took.

# Locks

Two facts about locks are carried along: locks of different threads do not
conflict (`Shared.Compatible`), and a thread holds the locks of its pending
writes. They are what makes a commit under locks taken earlier as good as
one that takes them now.

# The steps

One lemma for each action of the machine: a step, an answer, an abort, time,
the outside world. A SERIALIZABLE transaction is a single action, with or
without a wait before its late reading of the clock; both are
`World.Safe.atOnce`.
-/
import FastRep.Txn.Proofs.Safe

namespace FastRep.Txn

open Relation (ReflTransGen)

variable {Row Key Index ε Site Call Choice Env Req Res : Type}
  [DecidableEq Key] [DecidableEq Index] [Schema Row Key Index]
  [Services Call Choice Env]
  {C : Contract Row ε Site Call Req Res} {t : Tid} {s : Site}
  {S S' S'' : Shared Row ε Site Call Req Res}

-- =============================================================== locks

/-- Locks of different threads do not conflict. -/
def Shared.Compatible (S : Shared Row ε Site Call Req Res) : Prop :=
  ∀ h ∈ S.locks, ∀ h' ∈ S.locks, h.1 ≠ h'.1 → h.2.conflicts h'.2 = false

/-- A thread may use a lock it already holds. -/
theorem Shared.Compatible.free (h : S.Compatible) {l : Lock Key Index}
    (hl : (t, l) ∈ S.locks) : S.free t l = true := by
  refine List.all_eq_true.mpr fun x hx => ?_
  by_cases hxt : x.1 = t
  · simp [hxt]
  · simp [h x hx (t, l) hl hxt]

/-- Locks that were free do not conflict with those that are held. -/
theorem Shared.Compatible.ran (h : S.Compatible) {ls : List (Lock Key Index)}
    (hfree : ∀ l ∈ ls, S.free t l = true) : (S.ran t s ls).Compatible := by
  have hnew : ∀ l ∈ ls, ∀ x ∈ S.locks, x.1 ≠ t → x.2.conflicts l = false := by
    intro l hl x hx hxt
    exact Shared.not_conflicts_of_free (hfree l hl) hx (Ne.symm hxt)
  intro x hx y hy hxy
  rcases List.mem_append.mp hx with hx | hx <;>
    rcases List.mem_append.mp hy with hy | hy
  · obtain ⟨l, -, rfl⟩ := List.mem_map.mp hx
    obtain ⟨l', -, rfl⟩ := List.mem_map.mp hy
    exact absurd rfl hxy
  · obtain ⟨l, hl, rfl⟩ := List.mem_map.mp hx
    rw [Lock.conflicts_symm]
    exact hnew l hl y hy (Ne.symm hxy)
  · obtain ⟨l, hl, rfl⟩ := List.mem_map.mp hy
    exact hnew l hl x hx hxy
  · exact h x hx y hy hxy

/-- No move makes two threads hold conflicting locks. -/
theorem Move.compatible {j : Tid} (hm : Move C j S S') (h : S.Compatible) :
    S'.Compatible := by
  cases hm with
  | ran s ls hfree => exact h.ran hfree
  | committed s ws _ _ =>
      exact fun x hx y hy => h x (List.mem_filter.mp hx).1 y (List.mem_filter.mp hy).1
  | rolledBack s e =>
      exact fun x hx y hy => h x (List.mem_filter.mp hx).1 y (List.mem_filter.mp hy).1
  | _ => exact h

-- ============================================================= threads

/-- What a thread has left to do keeps the contract. -/
def Thread.Safe (C : Contract Row ε Site Call Req Res) (t : Tid) :
    Thread Row ε Site Call Res → Shared Row ε Site Call Req Res → Prop
  | .idle, S => t ≠ outside → S.Fresh t
  | .running p, S => t ≠ outside ∧
      ProgSafe C t (fun a S' => C.finishes t (.ok a) S')
        (fun e S' => C.finishes t (.error e) S') p S
  | .inTx s body ws k, S => t ≠ outside ∧
      (∀ l ∈ ws.flatMap Write.locks, (t, l) ∈ S.locks) ∧
      TxSafe C t s (fun b ws S'' => C.commits t s ws S'' ∧
        ProgSafe C t (fun a S' => C.finishes t (.ok a) S')
          (fun e S' => C.finishes t (.error e) S') (k (.ok b))
          (S''.commit t s ws)) body ws S ∧
      ∀ e S'', Within C t s S S'' →
        ProgSafe C t (fun a S' => C.finishes t (.ok a) S')
          (fun e S' => C.finishes t (.error e) S') (k (.error e))
          (S''.rollback t s e)
  | .finished _, _ => True

/-- The moves of others leave a thread safe. -/
theorem Thread.Safe.move {th : Thread Row ε Site Call Res} {j : Tid}
    (h : th.Safe C t S) (hj : j ≠ t) (hm : Move C j S S') : th.Safe C t S' := by
  have hrely : Rely C t S S' := ReflTransGen.single ⟨j, hj, hm⟩
  cases th with
  | idle =>
      intro ht e he
      rcases hm.trace_eq with htr | ⟨ev, htr⟩
      · rw [htr] at he
        exact h ht e he
      · rw [htr] at he
        rcases List.mem_cons.mp he with rfl | he
        · exact hj
        · exact h ht e he
  | running p => exact ⟨h.1, h.2.rely hrely⟩
  | inTx s body ws k =>
      obtain ⟨ht, hlocks, hbody, hfail⟩ := h
      refine ⟨ht, fun l hl => hm.mem_locks hj (hlocks l hl), hbody.rely hrely, ?_⟩
      exact fun e S'' hW => hfail e S'' (hrely.within.trans hW)
  | finished r => trivial

structure World.Safe (C : Contract Row ε Site Call Req Res)
    (w : World Row ε Site Call Req Res) : Prop where
  runs : Runs C w.shared
  compatible : w.shared.Compatible
  threads : ∀ t, (w.threads t).Safe C t w.shared

/-- A move of a thread, with the program it leaves, is a safe step. -/
theorem World.Safe.set {w : World Row ε Site Call Req Res}
    {th : Thread Row ε Site Call Res} (h : w.Safe C)
    (hm : Move C t w.shared S') (hth : th.Safe C t S') :
    (w.set t th S').Safe C where
  runs := ReflTransGen.tail h.runs ⟨t, hm⟩
  compatible := hm.compatible h.compatible
  threads := fun i => by
    by_cases hi : i = t
    · subst hi
      simpa [World.set] using hth
    · have hother := (h.threads i).move (Ne.symm hi) hm
      simpa [World.set, hi] using hother

/-- A step that only reads. -/
theorem World.Safe.set_same {w : World Row ε Site Call Req Res}
    {th : Thread Row ε Site Call Res} (h : w.Safe C)
    (hth : th.Safe C t w.shared) : (w.set t th w.shared).Safe C where
  runs := h.runs
  compatible := h.compatible
  threads := fun i => by
    by_cases hi : i = t
    · subst hi
      simpa [World.set] using hth
    · simpa [World.set, hi] using h.threads i

/-- A step of the outside world. No request runs under its number, so it
is a move of another thread for every request. -/
theorem World.Safe.outside_move {w : World Row ε Site Call Req Res} (h : w.Safe C)
    (hm : Move C outside w.shared S') : ({ w with shared := S' }).Safe C where
  runs := ReflTransGen.tail h.runs ⟨_, hm⟩
  compatible := hm.compatible h.compatible
  threads := fun i => by
    have hth := h.threads i
    by_cases hi : i = outside
    · subst hi
      show (w.threads outside).Safe C outside S'
      cases hidle : w.threads outside with
      | idle => exact fun hne => absurd rfl hne
      | finished r => trivial
      | running p =>
          rw [hidle] at hth
          exact absurd rfl hth.1
      | inTx s body ws k =>
          rw [hidle] at hth
          exact absurd rfl hth.1
    · exact hth.move (Ne.symm hi) hm

-- =============================================================== steps

section Steps

variable {w w' : World Row ε Site Call Req Res}

omit [DecidableEq Index] in
/-- A body that runs at once needs the locks of all that it writes. -/
theorem Tx.locks_subset_needs {β : Type} (body : Tx Row ε β) (n : Nat)
    (d : Db Row) {b : β} (hb : (body.run n d).result = .ok b) :
    ∀ l ∈ (body.run n d).writes.flatMap Write.locks,
      l ∈ (body.run n d).needs := by
  induction body generalizing d with
  | pure b => simp [Tx.run]
  | throw e => simp [Tx.run]
  | now k ih => exact ih _ d hb
  | later _ k ih => exact ih _ d hb
  | stmt f k ih =>
      intro l hl
      simp only [Tx.run] at hb hl ⊢
      split at hb
      next => cases hb
      next c ws hans =>
          rw [hans] at hl
          simp only [List.flatMap_append, List.mem_append] at hl ⊢
          rcases hl with hl | hl
          · exact Or.inl (Or.inr hl)
          · exact Or.inr (ih c _ hb l hl)

omit [DecidableEq Index] in
/-- Not waiting is one way to run a body. -/
theorem Tx.run_waiting_nil {β : Type} (body : Tx Row ε β) (n : Nat) (d : Db Row) :
    (body.waiting []).run n d = body.run n d := by
  induction body generalizing d with
  | pure b => rfl
  | throw e => rfl
  | now k ih => exact ih n d
  | later since k ih => exact ih _ d
  | stmt f k ih => simp only [Tx.waiting, Tx.run, ih]

omit [DecidableEq Index] in
/-- A body that runs at once leaves what its statements leave. -/
theorem Tx.leaves_run {β : Type} {body : Tx Row ε β} {n : Nat} {d : Db Row} {b : β}
    (hb : (body.run n d).result = .ok b) : body.Leaves n d b (body.run n d).writes := by
  refine ⟨[], ?_, ?_⟩ <;> rw [Tx.run_waiting_nil]
  exact hb

/-- A SERIALIZABLE transaction, in whichever form of its body. -/
theorem World.Safe.atOnce {β : Type} {s : Site} {body ran : Tx Row ε β}
    {k : Except ε β → Prog Row ε Site Call Res} (h : w.Safe C)
    (hth : (Thread.running (.tx .serializable s body k)).Safe C t w.shared)
    (hran : ∀ b, (ran.run w.shared.clock w.shared.db).result = .ok b →
      body.Leaves w.shared.clock w.shared.db b (ran.run w.shared.clock w.shared.db).writes)
    (hstep : w.atOnce t s ran k = some w') : w'.Safe C := by
  obtain ⟨hok, hfail⟩ := hth.2 _ (Sees.refl h.runs)
  simp only [World.atOnce] at hstep
  split at hstep
  next hfree =>
      split at hstep
      next b hb =>
          cases hstep
          obtain ⟨hG, hsafe⟩ := hok b _ (hran b hb)
          refine h.set (.committed s _ (fun w hw l hl => ?_) hG) ⟨hth.1, hsafe⟩
          exact List.all_eq_true.mp hfree l (Tx.locks_subset_needs ran _ _ hb l
            (List.mem_flatMap.mpr ⟨w, hw, hl⟩))
      next e he =>
          cases hstep
          exact h.set (.rolledBack s e) ⟨hth.1, hfail e⟩
  next => cases hstep

/-- One step of a thread. -/
theorem World.Safe.step (h : w.Safe C)
    (hstep : w.step t = some w') : w'.Safe C := by
  have hth := h.threads t
  have hsees := Sees.refl h.runs (t := t)
  unfold World.step at hstep
  split at hstep
  next => cases hstep
  next => cases hstep
  next a heq =>
      rw [heq] at hth
      cases hstep
      exact h.set (.finished _ (hth.2 _ hsees)) trivial
  next e heq =>
      rw [heq] at hth
      cases hstep
      exact h.set (.finished _ (hth.2 _ hsees)) trivial
  next k heq =>
      rw [heq] at hth
      cases hstep
      exact h.set_same ⟨hth.1, hth.2 _ hsees⟩
  next k heq =>
      rw [heq] at hth
      cases hstep
      exact h.set .drawn ⟨hth.1, hth.2 _ hsees⟩
  next s k heq =>
      rw [heq] at hth
      cases hstep
      obtain ⟨hG, hsafe⟩ := hth.2 _ hsees
      exact h.set (.entered s hG) ⟨hth.1, hsafe⟩
  next => cases hstep
  next s body k heq =>
      rw [heq] at hth
      cases hstep
      obtain ⟨hbody, hfail⟩ := hth.2 _ hsees
      refine h.set (.began s) ⟨hth.1, by simp, hbody, fun e S'' hW => ?_⟩
      exact hfail e S'' (Within.begin.trans hW)
  next s body k heq =>
      rw [heq] at hth
      exact h.atOnce hth (fun b hb => Tx.leaves_run hb) hstep
  next s b ws k heq =>
      rw [heq] at hth
      cases hstep
      obtain ⟨ht, hlocks, hbody, -⟩ := hth
      obtain ⟨hG, hsafe⟩ := hbody _ hsees
      refine h.set (.committed s ws (fun w hw l hl => ?_) hG) ⟨ht, hsafe⟩
      exact h.compatible.free (hlocks l (List.mem_flatMap.mpr ⟨w, hw, hl⟩))
  next s e ws k heq =>
      rw [heq] at hth
      cases hstep
      exact h.set (.rolledBack s e) ⟨hth.1, hth.2.2.2 e _ Within.refl⟩
  next s b ws k heq =>
      rw [heq] at hth
      cases hstep
      obtain ⟨ht, hlocks, hbody, hfail⟩ := hth
      exact h.set_same ⟨ht, hlocks, hbody _ hsees, hfail⟩
  next s b ws k heq =>
      rw [heq] at hth
      cases hstep
      obtain ⟨ht, hlocks, hbody, hfail⟩ := hth
      exact h.set_same ⟨ht, hlocks, hbody _ hsees, hfail⟩
  next s _ f b ws k heq =>
      rw [heq] at hth
      obtain ⟨ht, hlocks, hbody, hfail⟩ := hth
      simp only at hstep
      split at hstep
      next e he =>
          split at hstep
          next =>
              cases hstep
              exact h.set (.rolledBack s e) ⟨ht, hfail e _ Within.refl⟩
          next => cases hstep
      next a ws' ha =>
          split at hstep
          next hfree =>
              cases hstep
              simp only [List.all_append, Bool.and_eq_true, List.all_eq_true] at hfree
              obtain ⟨hwaits, hnew⟩ := hfree
              refine h.set (.ran s _ hnew) ⟨ht, fun l hl => ?_,
                hbody _ hsees a ws' ha hwaits hnew, fun e S'' hW => ?_⟩
              · rw [List.flatMap_append, List.mem_append] at hl
                rcases hl with hl | hl
                · exact List.mem_append_right _ (hlocks l hl)
                · exact List.mem_append_left _ (List.mem_map_of_mem hl)
              · exact hfail e S'' ((Within.ran hnew).trans hW)
          next => cases hstep

/-- The answer of a call keeps a world safe. -/
theorem World.Safe.answer {c : Choice} (h : w.Safe C)
    (hstep : w.answer t c = some w') : w'.Safe C := by
  have hth := h.threads t
  unfold World.answer at hstep
  split at hstep
  next x k heq =>
      rw [heq] at hth
      split at hstep
      next a env hperf =>
          cases hstep
          obtain ⟨hG, hsafe⟩ := hth.2 _ (Sees.refl h.runs) c a env hperf
          exact h.set (.answered x c a env hperf hG) ⟨hth.1, hsafe⟩
      next => cases hstep
  next => cases hstep

variable [DbErrors ε]

/-- An aborted transaction keeps a world safe. -/
theorem World.Safe.abort {e : DbError} (h : w.Safe C)
    (hstep : w.abort t e = some w') : w'.Safe C := by
  have hth := h.threads t
  have hsees := Sees.refl h.runs (t := t)
  unfold World.abort at hstep
  split at hstep
  next i s body k heq =>
      rw [heq] at hth
      cases hstep
      refine h.set (.rolledBack s _) ⟨hth.1, ?_⟩
      cases i with
      | readCommitted => exact (hth.2 _ hsees).2 _ _ Within.refl
      | serializable => exact (hth.2 _ hsees).2 _
  next s body ws k heq =>
      rw [heq] at hth
      cases hstep
      exact h.set (.rolledBack s _) ⟨hth.1, hth.2.2.2 _ _ Within.refl⟩
  next => cases hstep

/-- Every action keeps a world safe. -/
theorem World.Safe.apply {app : App Row ε Site Call Req Res}
    {a : Action Req Choice} (h : w.Safe C) (happ : app.Safe C)
    (hstep : w.apply app a = some w') : w'.Safe C := by
  cases a with
  | spawn t q =>
      have hth := h.threads t
      simp only [World.apply] at hstep
      split at hstep
      next heq =>
          rw [heq] at hth
          split at hstep
          next hready =>
              cases hstep
              simp only [Bool.and_eq_true, decide_eq_true_eq] at hready
              obtain ⟨ht, hready⟩ := hready
              obtain ⟨harr, hsafe⟩ := happ t q w.shared ht hready h.runs (hth ht)
              exact h.set (.spawned q ht harr (hth ht)) ⟨ht, hsafe⟩
          next => cases hstep
      next => cases hstep
  | step t => exact h.step hstep
  | stepLate t ms =>
      have hth := h.threads t
      simp only [World.apply, World.stepLate] at hstep
      split at hstep
      next s body k heq =>
          rw [heq] at hth
          exact h.atOnce hth (fun b hb => ⟨ms, hb, rfl⟩) hstep
      next => cases hstep
  | answer t c => exact h.answer hstep
  | abort t e => exact h.abort hstep
  | tick n =>
      cases hstep
      exact h.outside_move (.ticked n)
  | ambient c =>
      simp only [World.apply] at hstep
      split at hstep
      next env henv =>
          cases hstep
          exact h.outside_move (.ambient c env henv)
      next => cases hstep

end Steps

-- ================================================================ runs

variable [DbErrors ε]

/-- Every reachable state of a safe program is the end of a run of
moves. -/
theorem App.Safe.runs {app : App Row ε Site Call Req Res}
    {db : Db Row} {env : Env} {clock nextId : Nat}
    {w : World Row ε Site Call Req Res} (happ : app.Safe C)
    (hstart : C.start = (World.init db env clock nextId).shared)
    (h : Reachable app (World.init db env clock nextId) w) : Runs C w.shared := by
  have hsafe : w.Safe C := by
    induction h with
    | init =>
        refine ⟨?_, fun x hx => absurd hx (by simp [World.init]), fun i => ?_⟩
        · rw [← hstart]
          exact ReflTransGen.refl
        · intro _ e he
          simp [World.init] at he
    | step a _ hstep ih => exact ih.apply happ hstep
  exact hsafe.runs

end FastRep.Txn
