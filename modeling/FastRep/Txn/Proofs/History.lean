/-
The history of a run: what the trace of a reached state says about the
states before it.

# The past of an entry

Every entry of the trace is a move that was made, in a state of the run,
and everything newer than the entry came after it (`Runs.since`). `Past`
holds these together: the state, the contract's promise of the move, and
the moves since. A fact about an entry is then a fact about the state it was
made in, carried on by `Steps.lift`.

# What follows from it

- A row of the database was there from the start or written by a commit of
  the trace (`Runs.written`), so a property of all rows is a property of all
  versions ever written.
- What an entry establishes and every move keeps holds now (`Runs.after`).
- A thread serves one request, from its first step to its last
  (`Past.asked`, `Runs.live_since`).
- Two draws never give the same id (`Runs.idsDistinct`).
-/
import FastRep.Txn.Proofs.Rely

namespace FastRep.Txn

open Relation (ReflTransGen)

variable {Row Key Index ε Site Call Choice Env Req Res : Type}
  [DecidableEq Key] [DecidableEq Index] [Schema Row Key Index]
  [Services Call Choice Env]
  {C : Contract Row ε Site Call Req Res} {t t' : Tid} {s : Site}
  {S S' S'' : Shared Row ε Site Call Req Res}

/-- Any number of moves. -/
def Steps (C : Contract Row ε Site Call Req Res) :
    Shared Row ε Site Call Req Res → Shared Row ε Site Call Req Res → Prop :=
  ReflTransGen fun S S' => ∃ j, Move C j S S'

-- ============================================================ induction

/-- A move of any thread prolongs a run. -/
theorem Runs.move {j : Tid} (h : Runs C S) (hm : Move C j S S') : Runs C S' :=
  ReflTransGen.tail h ⟨j, hm⟩

/-- An invariant: true at the start, kept by every move of the run. -/
theorem Runs.invariant {I : Shared Row ε Site Call Req Res → Prop} (h : Runs C S)
    (hstart : I C.start)
    (hmove : ∀ j S S', Runs C S → I S → Move C j S S' → I S') : I S := by
  induction h with
  | refl => exact hstart
  | tail hruns hstep ih =>
      obtain ⟨j, hm⟩ := hstep
      exact hmove j _ _ hruns ih hm

/-- What every move keeps holds from one state of a run to a later one. -/
theorem Steps.lift {I : Shared Row ε Site Call Req Res → Prop} (h : Steps C S S')
    (hruns : Runs C S) (hS : I S)
    (hmove : ∀ j S S', Runs C S → I S → Move C j S S' → I S') : I S' := by
  have hboth : Runs C S' ∧ I S' := by
    induction h with
    | refl => exact ⟨hruns, hS⟩
    | tail _ hstep ih =>
        obtain ⟨j, hm⟩ := hstep
        exact ⟨ih.1.move hm, hmove j _ _ ih.1 ih.2 hm⟩
  exact hboth.2

/-- A history is never rewritten, only prolonged. -/
theorem Steps.trace_suffix (h : Steps C S S') : S.trace <:+ S'.trace := by
  induction h with
  | refl => exact List.suffix_refl _
  | tail _ hstep ih =>
      obtain ⟨j, hm⟩ := hstep
      exact ih.trans hm.trace_suffix

-- ============================================================== the past

/-- A move of a run, the state it was made in, and what came after. -/
structure Past (C : Contract Row ε Site Call Req Res)
    (e : Entry Row ε Site Call Req Res) (S₀ S₁ S : Shared Row ε Site Call Req Res) :
    Prop where
  runs : Runs C S₀
  scene : S₀.toScene = e.before
  move : Move C e.tid S₀ S₁
  trace : S₁.trace = e :: S₀.trace
  steps : Steps C S₁ S

/-- An entry of a trace is a move of the run, made when the trace was the
older entries. -/
theorem Runs.at (hstart : C.start.trace = []) (h : Runs C S)
    {newer older : List (Entry Row ε Site Call Req Res)}
    {e : Entry Row ε Site Call Req Res} (he : S.trace = newer ++ e :: older) :
    ∃ S₀ S₁, Past C e S₀ S₁ S ∧ S₀.trace = older := by
  induction h generalizing newer with
  | refl => simp [hstart] at he
  | tail hruns hstep ih =>
      obtain ⟨j, hm⟩ := hstep
      have hold : ∀ {S S' : Shared Row ε Site Call Req Res} {j : Tid}, Move C j S S' →
          (∃ S₀ S₁, Past C e S₀ S₁ S ∧ S₀.trace = older) →
          ∃ S₀ S₁, Past C e S₀ S₁ S' ∧ S₀.trace = older := by
        rintro S S' j hm ⟨S₀, S₁, hpast, htr⟩
        exact ⟨S₀, S₁, ⟨hpast.runs, hpast.scene, hpast.move, hpast.trace,
          hpast.steps.tail ⟨j, hm⟩⟩, htr⟩
      rcases hm.trace_eq with htr | ⟨ev, htr⟩
      · exact hold hm (ih (htr ▸ he))
      · rw [htr] at he
        cases newer with
        | nil =>
            rw [List.nil_append, List.cons.injEq] at he
            obtain ⟨rfl, rfl⟩ := he
            exact ⟨_, _, ⟨hruns, rfl, hm, htr, ReflTransGen.refl⟩, rfl⟩
        | cons e' newer =>
            rw [List.cons_append, List.cons.injEq] at he
            exact hold hm (ih he.2)

/-- Every entry of a trace is a move of the run. -/
theorem Runs.since (hstart : C.start.trace = []) (h : Runs C S)
    {e : Entry Row ε Site Call Req Res} (he : e ∈ S.trace) :
    ∃ S₀ S₁, Past C e S₀ S₁ S := by
  obtain ⟨newer, older, htr⟩ := List.append_of_mem he
  obtain ⟨S₀, S₁, hpast, -⟩ := h.at hstart htr
  exact ⟨S₀, S₁, hpast⟩

/-- The entries older than an entry are the trace of the state it was made
in. -/
theorem Past.suffix {e : Entry Row ε Site Call Req Res}
    {S₀ S₁ : Shared Row ε Site Call Req Res} (h : Past C e S₀ S₁ S) :
    e :: S₀.trace <:+ S.trace :=
  h.trace ▸ h.steps.trace_suffix

/-- An invariant that may also look at the earlier states of the run. -/
theorem Runs.invariant_of_past {I : Shared Row ε Site Call Req Res → Prop} (h : Runs C S)
    (hstart : I C.start)
    (hmove : ∀ j S S', Runs C S → I S → (∀ e S₀ S₁, Past C e S₀ S₁ S → I S₀) →
      Move C j S S' → I S') : I S := by
  suffices hall : ∀ n S, Runs C S → S.trace.length < n → I S from
    hall _ S h (Nat.lt_succ_self _)
  intro n
  induction n with
  | zero => exact fun S _ hlt => absurd hlt (Nat.not_lt_zero _)
  | succ n ih =>
      intro S h
      refine h.invariant (I := fun S => S.trace.length < n + 1 → I S) (fun _ => hstart) ?_
      intro j S S' hruns hS hm hlt
      have hle := hm.trace_suffix.length_le
      refine hmove j S S' hruns (hS (by omega)) (fun e S₀ S₁ hpast => ih S₀ hpast.runs ?_) hm
      have hshorter := hpast.suffix.length_le
      rw [List.length_cons] at hshorter
      omega

/-- The past of an entry logged as a commit. -/
theorem Past.commit {e : Entry Row ε Site Call Req Res}
    {S₀ S₁ : Shared Row ε Site Call Req Res} {ws : List (Write Row Key)}
    (h : Past C e S₀ S₁ S) (hev : e.event = .commit s ws) :
    C.commits e.tid s ws S₀ ∧ S₁ = S₀.commit e.tid s ws := by
  have htr := h.trace
  have hm := h.move
  obtain ⟨j, ev, before⟩ := e
  cases hev
  cases hm with
  | committed s' ws' _ hC =>
      simp only [Shared.commit, Shared.log, List.cons.injEq, Entry.mk.injEq,
        Event.commit.injEq] at htr
      obtain ⟨⟨-, ⟨rfl, rfl⟩, -⟩, -⟩ := htr
      exact ⟨hC, rfl⟩
  | ticked n =>
      have hlen := congrArg List.length htr
      simp at hlen
  | _ => simp [Shared.spawned, Shared.begin, Shared.ran, Shared.rollback, Shared.answered,
      Shared.drawn, Shared.finished, Shared.log] at htr

/-- The newest commit of a run, and the state before it. -/
theorem Runs.newest (hstart : C.start.trace = []) {ws : List (Write Row Key)}
    (h : Runs C (S.commit t s ws)) :
    Runs C S ∧ C.commits t s ws S ∧ Move C t S (S.commit t s ws) := by
  have htr : (S.commit t s ws).trace = [] ++ ⟨t, .commit s ws, S.toScene⟩ :: S.trace := rfl
  obtain ⟨S₀, S₁, hpast, holder⟩ := h.at hstart htr
  have hsame : S₀ = S := by
    have hscene := hpast.scene
    obtain ⟨sc, tr⟩ := S₀
    cases hscene
    cases holder
    rfl
  obtain ⟨hC, hS₁⟩ := hpast.commit rfl
  have hm := hpast.move
  rw [hS₁] at hm
  exact hsame ▸ ⟨hpast.runs, hC, hm⟩

/-- An entry that is no commit left the database alone. -/
theorem Past.db_eq {e : Entry Row ε Site Call Req Res}
    {S₀ S₁ : Shared Row ε Site Call Req Res} (h : Past C e S₀ S₁ S)
    (hev : ∀ s ws, e.event ≠ .commit s ws) : S₁.db = S₀.db := by
  rcases h.move.commit_or with ⟨s, ws, -, -, hS₁⟩ | ⟨hdb, -⟩
  · have htr := h.trace
    rw [hS₁] at htr
    exact absurd (congrArg Entry.event (List.cons.inj htr).1).symm (hev s ws)
  · exact hdb

/-- What a contract promises of a step. -/
def Contract.Promises (C : Contract Row ε Site Call Req Res) (t : Tid) :
    Event Row ε Site Call Req Res → Shared Row ε Site Call Req Res → Prop
  | .commit s ws, S => C.commits t s ws S
  | .call x c, S => C.calls t x c S
  | .enter s, S => C.enters t s S
  | .finish r, S => C.finishes t r S
  | .spawn q, S => C.arrives q S.toScene
  | _, _ => True

/-- The promise of an entry, in the state it was made in. -/
theorem Past.promised {e : Entry Row ε Site Call Req Res}
    {S₀ S₁ : Shared Row ε Site Call Req Res} (h : Past C e S₀ S₁ S) :
    C.Promises e.tid e.event S₀ := by
  have htr := h.trace
  have hm := h.move
  obtain ⟨j, ev, before⟩ := e
  cases hm with
  | committed s ws _ hC =>
      cases congrArg Entry.event (List.cons.inj htr).1
      exact hC
  | answered x c a env _ hC =>
      cases congrArg Entry.event (List.cons.inj htr).1
      exact hC
  | entered s hC =>
      cases congrArg Entry.event (List.cons.inj htr).1
      exact hC
  | finished r hC =>
      cases congrArg Entry.event (List.cons.inj htr).1
      exact hC
  | spawned q _ harrives _ =>
      cases congrArg Entry.event (List.cons.inj htr).1
      exact harrives
  | ticked n => exact absurd (congrArg List.length htr) (by simp)
  | _ =>
      cases congrArg Entry.event (List.cons.inj htr).1
      trivial

-- ============================================================== the rows

/-- A commit of the trace wrote this version of the row. -/
def Shared.Wrote (S : Shared Row ε Site Call Req Res) (x : Row) : Prop :=
  ∃ e ∈ S.trace, ∃ s ws, e.event = .commit s ws ∧ ∃ w ∈ ws, w.row? = some x

/-- A stored row was there from the start or written since. -/
theorem Runs.written (h : Runs C S) {x : Row} (hx : x ∈ S.db.rows) :
    x ∈ C.start.db.rows ∨ S.Wrote x := by
  revert x
  refine h.invariant (I := fun S => ∀ {x}, x ∈ S.db.rows → x ∈ C.start.db.rows ∨ S.Wrote x)
    (fun hx => Or.inl hx) ?_
  intro j S S' _ ih hm x hx
  have hkeep : S.Wrote x → S'.Wrote x := by
    rintro ⟨e, he, hw⟩
    exact ⟨e, hm.trace_suffix.subset he, hw⟩
  rcases hm.db_eq with hdb | ⟨s, ws, -, -, rfl⟩
  · rw [hdb] at hx
    exact (ih hx).imp_right hkeep
  · rcases mem_applyAll hx with ⟨w, hw, hrow⟩ | hmem
    · exact Or.inr ⟨_, List.mem_cons_self, s, ws, rfl, w, hw, hrow⟩
    · exact (ih hmem).imp_right hkeep

/-- What an entry establishes, and every move since keeps, with the entries
since. -/
theorem Runs.after
    {I : List (Entry Row ε Site Call Req Res) → Shared Row ε Site Call Req Res → Prop}
    (hstart : C.start.trace = []) (h : Runs C S)
    {newer older : List (Entry Row ε Site Call Req Res)} {e : Entry Row ε Site Call Req Res}
    (htr : S.trace = newer ++ e :: older)
    (hentry : ∀ S₀ S₁, Past C e S₀ S₁ S₁ → S₀.trace = older → I [] S₁)
    (hmove : ∀ j S S' newer added, Runs C S → S.trace = newer ++ e :: older → I newer S →
      Move C j S S' → S'.trace = added ++ S.trace → I (added ++ newer) S') : I newer S := by
  obtain ⟨S₀, S₁, hpast, holder⟩ := h.at hstart htr
  have hall : ∃ newer, S.trace = newer ++ e :: older ∧ I newer S := by
    refine hpast.steps.lift (I := fun S => ∃ newer, S.trace = newer ++ e :: older ∧ I newer S)
      (hpast.runs.move hpast.move) ⟨[], ?_, ?_⟩ ?_
    · rw [hpast.trace, holder, List.nil_append]
    · exact hentry S₀ S₁
        ⟨hpast.runs, hpast.scene, hpast.move, hpast.trace, ReflTransGen.refl⟩ holder
    · rintro j S S' hruns ⟨newer, htr, hI⟩ hm
      obtain ⟨added, hadded⟩ := hm.trace_suffix
      exact ⟨added ++ newer, by rw [← hadded, htr, List.append_assoc],
        hmove j S S' newer added hruns htr hI hm hadded.symm⟩
  obtain ⟨newer', htr', hI⟩ := hall
  rw [htr] at htr'
  rwa [List.append_cancel_right htr']

-- ============================================================ the requests

/-- A thread with a request in progress has taken a step. -/
theorem Runs.live_mem (hstart : C.start.live = []) (h : Runs C S) {q : Req}
    (hq : (t, q) ∈ S.live) : ∃ e ∈ S.trace, e.tid = t := by
  revert hq
  refine h.invariant (I := fun S => (t, q) ∈ S.live → ∃ e ∈ S.trace, e.tid = t) ?_ ?_
  · intro hq
    rw [hstart] at hq
    cases hq
  · intro j S S' _ ih hm hq
    have hkeep : (t, q) ∈ S.live → ∃ e ∈ S'.trace, e.tid = t := fun hq => by
      obtain ⟨e, he, ht⟩ := ih hq
      exact ⟨e, hm.trace_suffix.subset he, ht⟩
    cases hm with
    | spawned q' _ _ _ =>
        rcases List.mem_cons.mp hq with heq | hq
        · exact ⟨_, List.mem_cons_self, (Prod.mk.inj heq).1.symm⟩
        · exact hkeep hq
    | finished r _ => exact hkeep (List.mem_of_mem_filter hq)
    | _ => exact hkeep hq

/-- A thread is spawned once, so it serves what it serves for good. -/
theorem Move.asked_of_mem {j : Tid} (hm : Move C j S S') (ht : ∃ e ∈ S.trace, e.tid = t) :
    S'.asked t = S.asked t := by
  by_cases hj : j = t
  · subst hj
    cases hm with
    | spawned q _ _ hfresh =>
        obtain ⟨e, he, hej⟩ := ht
        exact absurd hej (hfresh e he)
    | _ => rfl
  · exact hm.asked_eq hj

/-- A thread that has done something asks for nothing new. -/
theorem Steps.asked_of_mem (h : Steps C S S') (ht : ∃ e ∈ S.trace, e.tid = t) :
    S'.asked t = S.asked t := by
  induction h with
  | refl => rfl
  | tail hsteps hstep ih =>
      obtain ⟨j, hm⟩ := hstep
      obtain ⟨e, he, hej⟩ := ht
      exact (hm.asked_of_mem ⟨e, (Steps.trace_suffix hsteps).subset he, hej⟩).trans ih

/-- What a thread was asked when it took a step. -/
theorem Past.asked {e : Entry Row ε Site Call Req Res} {S₀ S₁ : Shared Row ε Site Call Req Res}
    (h : Past C e S₀ S₁ S) (hspawn : ∀ q, e.event ≠ .spawn q) :
    S₀.asked e.tid = S.asked e.tid := by
  have hmem : e ∈ S₁.trace := by
    rw [h.trace]
    exact List.mem_cons_self
  refine Eq.trans ?_ (h.steps.asked_of_mem ⟨e, hmem, rfl⟩).symm
  unfold Shared.asked
  rw [h.trace, List.filterMap_cons]
  cases hev : e.event with
  | spawn q => exact absurd hev (hspawn q)
  | _ => rfl

/-- A request that is in progress was in progress ever since its first
step. -/
theorem Runs.live_since (hstart : C.start.trace = []) (h : Runs C S)
    {newer older : List (Entry Row ε Site Call Req Res)}
    {e e' : Entry Row ε Site Call Req Res} (htr : S.trace = newer ++ e :: older)
    (he' : e' ∈ older) {q : Req} (hq : (e'.tid, q) ∈ S.live) : (e'.tid, q) ∈ e.before.live := by
  refine h.invariant (I := fun S => ∀ {newer}, S.trace = newer ++ e :: older →
    (e'.tid, q) ∈ S.live → (e'.tid, q) ∈ e.before.live) ?_ ?_ htr hq
  · intro newer htr
    rw [hstart] at htr
    simp at htr
  · intro j S S' _ ih hm newer htr hlive
    have hlog : ∀ {newer : List (Entry Row ε Site Call Req Res)}
        {ev : Event Row ε Site Call Req Res},
        (⟨j, ev, S.toScene⟩ : Entry Row ε Site Call Req Res) :: S.trace
          = newer ++ e :: older → (e'.tid, q) ∈ S.live → (e'.tid, q) ∈ e.before.live := by
      intro newer ev htr hlive
      cases newer with
      | nil =>
          rw [List.nil_append, List.cons.injEq] at htr
          rw [← htr.1]
          exact hlive
      | cons e₀ newer =>
          rw [List.cons_append, List.cons.injEq] at htr
          exact ih htr.2 hlive
    cases hm with
    | spawned q' hne harr hfresh =>
        rcases List.mem_cons.mp hlive with heq | hlive
        · -- a thread that was spawned just now has no older entry
          have hmem : e' ∈ S.trace := by
            have htr' : (⟨j, .spawn q', S.toScene⟩ : Entry Row ε Site Call Req Res) :: S.trace
                = newer ++ e :: older := htr
            cases newer with
            | nil =>
                rw [List.nil_append, List.cons.injEq] at htr'
                rw [htr'.2]
                exact he'
            | cons e₀ newer =>
                rw [List.cons_append, List.cons.injEq] at htr'
                rw [htr'.2]
                exact List.mem_append_right _ (List.mem_cons_of_mem _ he')
          exact absurd (Prod.mk.inj heq).1 (hfresh e' hmem)
        · exact hlog htr hlive
    | finished r hfin => exact hlog htr (List.mem_of_mem_filter hlive)
    | ticked n => exact ih htr hlive
    | _ => exact hlog htr hlive

/-- A request that ended is not in progress. -/
theorem Runs.not_live_of_finish (hstart : C.start.trace = []) (h : Runs C S)
    {e : Entry Row ε Site Call Req Res} (he : e ∈ S.trace) {r : Except ε Res}
    (hev : e.event = .finish r) (q : Req) : (e.tid, q) ∉ S.live := by
  refine h.invariant (I := fun S => e ∈ S.trace → (e.tid, q) ∉ S.live) ?_ ?_ he
  · intro he
    rw [hstart] at he
    cases he
  · intro j S S' _ ih hm he hlive
    have hold : ∀ {ev : Event Row ε Site Call Req Res}, (∀ r, ev ≠ .finish r) →
        e ∈ (⟨j, ev, S.toScene⟩ : Entry Row ε Site Call Req Res) :: S.trace → e ∈ S.trace := by
      intro ev hne he
      rcases List.mem_cons.mp he with rfl | he
      · exact absurd hev (hne r)
      · exact he
    cases hm with
    | spawned q' _ _ hfresh =>
        have he := hold (by simp) he
        rcases List.mem_cons.mp hlive with heq | hlive
        · exact hfresh e he (Prod.mk.inj heq).1
        · exact ih he hlive
    | finished r' _ =>
        obtain ⟨hlive, hne⟩ := List.mem_filter.mp hlive
        rcases List.mem_cons.mp he with rfl | he
        · simp at hne
        · exact ih he hlive
    | ticked n => exact ih he hlive
    | _ => exact ih (hold (by simp) he) hlive

-- =============================================================== the ids

/-- What is in the trace is in the past. -/
theorem Runs.clock_le (hstart : C.start.trace = []) (h : Runs C S)
    {e : Entry Row ε Site Call Req Res} (he : e ∈ S.trace) : e.before.clock ≤ S.clock := by
  revert e
  refine h.invariant (I := fun S => ∀ {e}, e ∈ S.trace → e.before.clock ≤ S.clock) ?_ ?_
  · intro e he
    rw [hstart] at he
    cases he
  · intro j S S' _ ih hm e he
    refine Nat.le_trans ?_ hm.clock_le
    rcases hm.trace_eq with htr | ⟨ev, htr⟩
    · exact ih (htr ▸ he)
    · rw [htr] at he
      rcases List.mem_cons.mp he with rfl | he
      · exact Nat.le_refl _
      · exact ih he

/-- An id that was drawn is below the counter. -/
theorem Runs.ids_lt (hstart : C.start.trace = []) (h : Runs C S) {n : Nat}
    (hn : n ∈ S.ids t) : n < S.nextId := by
  revert n
  refine h.invariant (I := fun S => ∀ {n}, n ∈ S.ids t → n < S.nextId) ?_ ?_
  · intro n hn
    rw [Shared.ids, hstart] at hn
    cases hn
  · intro j S S' _ ih hm n hn
    cases hm with
    | drawn =>
        simp only [Shared.ids, Shared.drawn, Shared.log, List.filterMap_cons] at hn
        split at hn
        next => exact Nat.lt_succ_of_lt (ih hn)
        next m hm =>
            simp only [Option.ite_none_right_eq_some, Option.some.injEq] at hm
            rcases List.mem_cons.mp hn with rfl | hn
            · exact hm.2 ▸ Nat.lt_succ_self _
            · exact Nat.lt_succ_of_lt (ih hn)
    | _ => exact ih hn

/-- And it is not below where the counter started. -/
theorem Runs.le_of_mem_ids (hstart : C.start.trace = []) (h : Runs C S) {n : Nat}
    (hn : n ∈ S.ids t) : C.start.nextId ≤ n := by
  have hall : C.start.nextId ≤ S.nextId ∧ ∀ n ∈ S.ids t, C.start.nextId ≤ n := by
    refine h.invariant (I := fun S => C.start.nextId ≤ S.nextId ∧
      ∀ n ∈ S.ids t, C.start.nextId ≤ n) ⟨Nat.le_refl _, fun n hn => ?_⟩ ?_
    · rw [Shared.ids, hstart] at hn
      cases hn
    · intro j S S' _ ih hm
      cases hm with
      | drawn =>
          refine ⟨Nat.le_succ_of_le ih.1, fun n hn => ?_⟩
          simp only [Shared.ids, Shared.drawn, Shared.log, List.filterMap_cons] at hn
          split at hn
          next => exact ih.2 n hn
          next m hm =>
              simp only [Option.ite_none_right_eq_some, Option.some.injEq] at hm
              rcases List.mem_cons.mp hn with rfl | hn
              · exact hm.2 ▸ ih.1
              · exact ih.2 n hn
      | _ => exact ih
  exact hall.2 n hn

/-- The ids of a run were drawn one after another. -/
structure Shared.IdsDistinct (S : Shared Row ε Site Call Req Res) : Prop where
  nodup : ∀ t, (S.ids t).Nodup
  unique : ∀ {t t' n}, n ∈ S.ids t → n ∈ S.ids t' → t = t'

/-- No id is drawn twice in a run. -/
theorem Runs.idsDistinct (hstart : C.start.trace = []) (h : Runs C S) : S.IdsDistinct := by
  refine h.invariant ?_ ?_
  · constructor
    · intro t
      rw [Shared.ids, hstart]
      exact List.nodup_nil
    · intro t t' n hn
      rw [Shared.ids, hstart] at hn
      cases hn
  · intro j S S' hruns ih hm
    have hsame : (∀ t, S'.ids t = S.ids t) → S'.IdsDistinct := by
      intro hids
      refine ⟨fun t => hids t ▸ ih.nodup t, fun {t t' n} hn hn' => ?_⟩
      rw [hids] at hn hn'
      exact ih.unique hn hn'
    cases hm with
    | drawn =>
        have hids : ∀ t, (S.drawn j).ids t = if j = t then S.nextId :: S.ids t else S.ids t := by
          intro t
          by_cases hj : j = t <;> simp [Shared.ids, Shared.drawn, Shared.log, hj]
        have hfresh : ∀ t, S.nextId ∉ S.ids t :=
          fun t hn => Nat.lt_irrefl _ (hruns.ids_lt hstart hn)
        constructor
        · intro t
          rw [hids]
          split
          next => exact List.nodup_cons.mpr ⟨hfresh t, ih.nodup t⟩
          next => exact ih.nodup t
        · intro t t' n hn hn'
          rw [hids] at hn hn'
          split at hn <;> split at hn'
          next hj hj' => exact hj.symm.trans hj'
          next hj hj' =>
              rcases List.mem_cons.mp hn with rfl | hn
              · exact absurd hn' (hfresh t')
              · exact ih.unique hn hn'
          next hj hj' =>
              rcases List.mem_cons.mp hn' with rfl | hn'
              · exact absurd hn (hfresh t)
              · exact ih.unique hn hn'
          next => exact ih.unique hn hn'
    | _ => exact hsame fun _ => rfl

end FastRep.Txn
