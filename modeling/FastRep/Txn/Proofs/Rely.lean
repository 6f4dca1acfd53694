/-
What a thread may count on while others move.

The moves of the other threads only add to the trace, keep the locks of
the thread, its open transaction and its request, and, because a commit
needs its locks free, leave every row the thread has locked as it is.
The same holds over the statements of its own transaction (`Within`), so
a fact read under a lock is still a fact at the commit.

# How the file goes

One lemma on a single move for each thing that is kept, then the same for
any number of moves by `Rely.lift` and `Within.lift`. Three kinds of locks
matter, and each has its lemma:

- an update or delete lock pins a row (`Lock.Pins`): nobody else writes it
  (`Within.find?_eq`);
- a unique entry that was claimed is not occupied by another
  (`Within.mem_of_index`);
- a key share keeps a row from being removed (`Within.isSome_of_share`).

The last section puts these at the commit, for the rows that the statements
of the transaction have written.
-/
import FastRep.Txn.Contract
import FastRep.Txn.Proofs.Writes

namespace FastRep.Txn

open Relation (ReflTransGen)

variable {Row Key Index ε Site Call Choice Env Req Res : Type}
  [DecidableEq Key] [DecidableEq Index] [Schema Row Key Index]
  [Services Call Choice Env]
  {C : Contract Row ε Site Call Req Res} {t : Tid} {s : Site}
  {S S' S'' : Shared Row ε Site Call Req Res}

-- ============================================================ one move

/-- A move logs at most one entry, its own. -/
theorem Move.trace_eq {j : Tid} (h : Move C j S S') :
    S'.trace = S.trace ∨ ∃ ev, S'.trace = ⟨j, ev, S.toScene⟩ :: S.trace := by
  cases h with
  | ticked n => exact Or.inl rfl
  | spawned q _ _ _ => exact Or.inr ⟨_, rfl⟩
  | began s => exact Or.inr ⟨_, rfl⟩
  | ran s ls _ => exact Or.inr ⟨_, rfl⟩
  | committed s ws _ _ => exact Or.inr ⟨_, rfl⟩
  | rolledBack s e => exact Or.inr ⟨_, rfl⟩
  | answered x c a env _ _ => exact Or.inr ⟨_, rfl⟩
  | drawn => exact Or.inr ⟨_, rfl⟩
  | entered s _ => exact Or.inr ⟨_, rfl⟩
  | finished r _ => exact Or.inr ⟨_, rfl⟩
  | ambient c env _ => exact Or.inr ⟨_, rfl⟩

/-- A move changes the database by the writes of a commit or not at all. -/
theorem Move.db_eq {j : Tid} (h : Move C j S S') :
    S'.db = S.db ∨ ∃ s ws, C.commits j s ws S ∧
      (∀ w ∈ ws, ∀ l ∈ w.locks, S.free j l = true) ∧ S' = S.commit j s ws := by
  cases h with
  | committed s ws hfree hC => exact Or.inr ⟨s, ws, hC, hfree, rfl⟩
  | _ => exact Or.inl rfl

/-- A move is a commit, or changes no row and logs no commit. -/
theorem Move.commit_or {j : Tid} (h : Move C j S S') :
    (∃ s ws, C.commits j s ws S ∧ (∀ w ∈ ws, ∀ l ∈ w.locks, S.free j l = true) ∧
      S' = S.commit j s ws) ∨
    (S'.db = S.db ∧ (S'.trace = S.trace ∨ ∃ ev, (∀ s ws, ev ≠ .commit s ws) ∧
      S'.trace = ⟨j, ev, S.toScene⟩ :: S.trace)) := by
  cases h with
  | committed s ws hfree hC => exact Or.inl ⟨s, ws, hC, hfree, rfl⟩
  | ticked n => exact Or.inr ⟨rfl, Or.inl rfl⟩
  | _ => exact Or.inr ⟨rfl, Or.inr ⟨_, fun _ _ h => (by cases h), rfl⟩⟩

/-- A lock of one thread is free for another only where it does not
conflict with what the other holds. -/
theorem Shared.not_conflicts_of_free {j : Tid} {l l' : Lock Key Index}
    (hfree : S.free j l = true) (hl : (t, l') ∈ S.locks) (hj : j ≠ t) :
    l'.conflicts l = false := by
  have h := List.all_eq_true.mp hfree _ hl
  simp only [Bool.or_eq_true, decide_eq_true_eq, Bool.not_eq_true'] at h
  rcases h with h | h
  · exact absurd h.symm hj
  · exact h

/-- A lock under which nobody else writes the row: an update or a delete
lock. -/
def Lock.Pins (l : Lock Key Index) (k : Key) : Prop :=
  l = .update k ∨ l = .delete k

/-- A write of a row takes a lock that a lock pinning the row excludes. -/
theorem Write.exists_lock_conflicts (w : Write Row Key) {l : Lock Key Index}
    (hl : l.Pins w.target) : ∃ l' ∈ w.locks, l.conflicts l' = true := by
  cases w with
  | insert r =>
      refine ⟨.update (key r), List.mem_cons_self, ?_⟩
      rcases hl with rfl | rfl <;> simp [Lock.conflicts, Write.target]
  | update r =>
      refine ⟨.update (key r), List.mem_cons_self, ?_⟩
      rcases hl with rfl | rfl <;> simp [Lock.conflicts, Write.target]
  | erase k =>
      refine ⟨.delete k, List.mem_cons_self, ?_⟩
      rcases hl with rfl | rfl <;> simp [Lock.conflicts, Write.target]

/-- A pinned row is not written by others. -/
theorem Shared.find?_commit_of_locked {j : Tid} {k : Key} {l : Lock Key Index}
    {ws : List (Write Row Key)} (hl : l.Pins k) (hlock : (t, l) ∈ S.locks)
    (hj : j ≠ t) (hfree : ∀ w ∈ ws, ∀ l ∈ w.locks, S.free j l = true) :
    (applyAll ws S.db).find? k = S.db.find? k := by
  refine find?_applyAll_ne (fun w hw hk => ?_) S.db
  obtain ⟨l', hl', hconf⟩ := w.exists_lock_conflicts (hk ▸ hl)
  rw [Shared.not_conflicts_of_free (hfree w hw l' hl') hlock hj] at hconf
  cases hconf

/-- A row that a thread has locked does not change while another thread moves.
-/
theorem Move.find?_eq {j : Tid} (h : Move C j S S') (hj : j ≠ t) {k : Key}
    {l : Lock Key Index} (hl : l.Pins k) (hlock : (t, l) ∈ S.locks) :
    S'.db.find? k = S.db.find? k := by
  rcases h.db_eq with hdb | ⟨s, ws, -, hfree, rfl⟩
  · rw [hdb]
  · exact Shared.find?_commit_of_locked hl hlock hj hfree

/-- Nobody else commits a row version that occupies a unique entry the
thread has claimed. -/
theorem Move.mem_of_index {j : Tid} (h : Move C j S S') (hj : j ≠ t)
    {i : Index} (hlock : (t, .index i) ∈ S.locks) {x : Row}
    (hx : x ∈ S'.db.rows) (hi : i ∈ Schema.indexes x) : x ∈ S.db.rows := by
  rcases h.db_eq with hdb | ⟨s, ws, -, hfree, rfl⟩
  · rwa [hdb] at hx
  · rcases mem_applyAll hx with ⟨w, hw, hrow⟩ | hmem
    · have hl : Lock.index i ∈ w.locks := by
        cases w with
        | insert r =>
            cases hrow
            exact List.mem_cons_of_mem _
              (List.mem_append_left _ (List.mem_map_of_mem hi))
        | update r =>
            cases hrow
            exact List.mem_cons_of_mem _
              (List.mem_append_left _ (List.mem_map_of_mem hi))
        | erase k => cases hrow
      have hconf := Shared.not_conflicts_of_free (hfree w hw _ hl) hlock hj
      simp [Lock.conflicts] at hconf
    · exact hmem

/-- A row under a key share lock is not removed by others. -/
theorem Move.isSome_of_share {j : Tid} (h : Move C j S S') (hj : j ≠ t)
    {k : Key} (hlock : (t, .share k) ∈ S.locks)
    (hk : (S.db.find? k).isSome = true) : (S'.db.find? k).isSome = true := by
  rcases h.db_eq with hdb | ⟨s, ws, -, hfree, rfl⟩
  · rwa [hdb]
  · have hne : ∀ w ∈ ws, w ≠ .erase k := by
      rintro w hw rfl
      have hconf := Shared.not_conflicts_of_free
        (hfree _ hw (.delete k) List.mem_cons_self) hlock hj
      simp [Lock.conflicts] at hconf
    exact isSome_find?_applyAll hne hk

/-- Another thread does not release a thread's locks. -/
theorem Move.mem_locks {j : Tid} (h : Move C j S S') (hj : j ≠ t)
    {l : Lock Key Index} (hl : (t, l) ∈ S.locks) : (t, l) ∈ S'.locks := by
  cases h with
  | ran s ls _ => exact List.mem_append_right _ hl
  | committed s ws _ _ => exact List.mem_filter.mpr ⟨hl, by simpa using hj.symm⟩
  | rolledBack s e => exact List.mem_filter.mpr ⟨hl, by simpa using hj.symm⟩
  | _ => exact hl

theorem Move.mem_opens {j : Tid} (h : Move C j S S') (hj : j ≠ t)
    {o : Open Site} (ho : o ∈ S.opens) (hot : o.tid = t) : o ∈ S'.opens := by
  cases h with
  | began s => exact List.mem_cons_of_mem _ ho
  | ran s ls _ =>
      refine List.mem_map.mpr ⟨o, ho, ?_⟩
      rw [if_neg]
      rw [hot]
      exact hj.symm
  | committed s ws _ _ =>
      refine List.mem_filter.mpr ⟨ho, ?_⟩
      rw [hot]
      simpa using hj.symm
  | rolledBack s e =>
      refine List.mem_filter.mpr ⟨ho, ?_⟩
      rw [hot]
      simpa using hj.symm
  | _ => exact ho

theorem Move.mem_live {j : Tid} (h : Move C j S S') (hj : j ≠ t) {q : Req}
    (hq : (t, q) ∈ S.live) : (t, q) ∈ S'.live := by
  cases h with
  | spawned q' _ _ _ => exact List.mem_cons_of_mem _ hq
  | finished r _ => exact List.mem_filter.mpr ⟨hq, by simpa using hj.symm⟩
  | _ => exact hq

/-- The history of a thread does not change by moves of others. -/
theorem Move.ids_eq {j : Tid} (h : Move C j S S') (hj : j ≠ t) :
    S'.ids t = S.ids t := by
  unfold Shared.ids
  rcases h.trace_eq with htr | ⟨ev, htr⟩
  · rw [htr]
  · rw [htr, List.filterMap_cons_none]
    cases ev <;> simp [hj]

/-- What a thread was asked for is not changed by another thread. -/
theorem Move.asked_eq {j : Tid} (h : Move C j S S') (hj : j ≠ t) :
    S'.asked t = S.asked t := by
  unfold Shared.asked
  rcases h.trace_eq with htr | ⟨ev, htr⟩
  · rw [htr]
  · rw [htr, List.filterMap_cons_none]
    cases ev <;> simp [hj]

theorem Move.committedBy_eq {j : Tid} (h : Move C j S S') (hj : j ≠ t) :
    S'.committedBy t = S.committedBy t := by
  unfold Shared.committedBy
  rcases h.trace_eq with htr | ⟨ev, htr⟩
  · rw [htr]
  · rw [htr, List.filterMap_cons_none]
    cases ev <;> simp [hj]

theorem Move.enteredBy_eq {j : Tid} (h : Move C j S S') (hj : j ≠ t) :
    S'.enteredBy t = S.enteredBy t := by
  unfold Shared.enteredBy
  rcases h.trace_eq with htr | ⟨ev, htr⟩
  · rw [htr]
  · rw [htr, List.filterMap_cons_none]
    cases ev <;> simp [hj]

/-- A move only adds to the history. -/
theorem Move.trace_suffix {j : Tid} (h : Move C j S S') :
    S.trace <:+ S'.trace := by
  rcases h.trace_eq with htr | ⟨ev, htr⟩
  · exact htr ▸ List.suffix_refl _
  · exact htr ▸ List.suffix_cons _ _

/-- An entry a move adds is taken in the state before it. -/
theorem Move.before_of_added {j : Tid} (h : Move C j S S')
    {added : List (Entry Row ε Site Call Req Res)} (hadded : S'.trace = added ++ S.trace)
    {e : Entry Row ε Site Call Req Res} (he : e ∈ added) : e.before = S.toScene := by
  rcases h.trace_eq with htr | ⟨ev, htr⟩
  · obtain rfl : added = [] := List.append_left_eq_self.mp (hadded.symm.trans htr)
    cases he
  · obtain rfl : added = [⟨j, ev, S.toScene⟩] :=
      List.append_cancel_right (hadded.symm.trans htr)
    rw [List.mem_singleton.mp he]

/-- What a move adds to the history happened in the state before it. -/
theorem Move.mem_trace {j : Tid} (h : Move C j S S') {e : Entry Row ε Site Call Req Res}
    (he : e ∈ S'.trace) : e ∈ S.trace ∨ e.before = S.toScene := by
  obtain ⟨added, hadded⟩ := h.trace_suffix
  rw [← hadded] at he
  rcases List.mem_append.mp he with he | he
  · exact Or.inr (h.before_of_added hadded.symm he)
  · exact Or.inl he

/-- Time does not go back. -/
theorem Move.clock_le {j : Tid} (h : Move C j S S') : S.clock ≤ S'.clock := by
  cases h with
  | ticked n => exact Nat.le_add_right _ _
  | _ => exact Nat.le_refl _

-- ======================================================= moves of others

/-- A relation that every move of another thread respects holds over any
number of them. -/
theorem Rely.lift {P : Shared Row ε Site Call Req Res → Prop}
    (hP : ∀ j S S', j ≠ t → Move C j S S' → P S → P S')
    (h : Rely C t S S') (hS : P S) : P S' := by
  induction h with
  | refl => exact hS
  | tail _ hstep ih =>
      obtain ⟨j, hj, hmove⟩ := hstep
      exact hP _ _ _ hj hmove ih

theorem Rely.refl : Rely C t S S := ReflTransGen.refl

/-- Moves of other threads in a row. -/
theorem Rely.trans (h : Rely C t S S') (h' : Rely C t S' S'') :
    Rely C t S S'' :=
  ReflTransGen.trans h h'

theorem Rely.ids_eq (h : Rely C t S S') : S'.ids t = S.ids t :=
  h.lift (P := fun X => X.ids t = S.ids t)
    (fun _ _ _ hj hm hX => (hm.ids_eq hj).trans hX) rfl

theorem Rely.asked_eq (h : Rely C t S S') : S'.asked t = S.asked t :=
  h.lift (P := fun X => X.asked t = S.asked t)
    (fun _ _ _ hj hm hX => (hm.asked_eq hj).trans hX) rfl

theorem Rely.committedBy_eq (h : Rely C t S S') :
    S'.committedBy t = S.committedBy t :=
  h.lift (P := fun X => X.committedBy t = S.committedBy t)
    (fun _ _ _ hj hm hX => (hm.committedBy_eq hj).trans hX) rfl

theorem Rely.enteredBy_eq (h : Rely C t S S') :
    S'.enteredBy t = S.enteredBy t :=
  h.lift (P := fun X => X.enteredBy t = S.enteredBy t)
    (fun _ _ _ hj hm hX => (hm.enteredBy_eq hj).trans hX) rfl

/-- While other threads move, the history only grows. -/
theorem Rely.trace_suffix (h : Rely C t S S') : S.trace <:+ S'.trace :=
  h.lift (P := fun X => S.trace <:+ X.trace)
    (fun _ _ _ _ hm hX => hX.trans hm.trace_suffix) (List.suffix_refl _)

theorem Rely.clock_le (h : Rely C t S S') : S.clock ≤ S'.clock :=
  h.lift (P := fun S₁ => S.clock ≤ S₁.clock)
    (fun _ _ _ _ hm hP => Nat.le_trans hP hm.clock_le) (Nat.le_refl _)

theorem Rely.mem_live (h : Rely C t S S') {q : Req} (hq : (t, q) ∈ S.live) :
    (t, q) ∈ S'.live :=
  h.lift (fun _ _ _ hj hm hX => hm.mem_live hj hX) hq

-- ================================================= inside a transaction

theorem Within.refl : Within C t s S S := ReflTransGen.refl

/-- Stretches of an open transaction in a row. -/
theorem Within.trans (h : Within C t s S S') (h' : Within C t s S' S'') :
    Within C t s S S'' :=
  ReflTransGen.trans h h'

/-- While a transaction is open, other threads may move. -/
theorem Rely.within (h : Rely C t S S') : Within C t s S S' :=
  ReflTransGen.mono (fun _ _ hm => Or.inl hm) _ _ h

theorem Within.begin : Within C t s S (S.begin t s) :=
  ReflTransGen.single (Or.inr (Or.inl rfl))

/-- Its thread may run a statement, which takes locks that were free. -/
theorem Within.ran {ls : List (Lock Key Index)}
    (h : ∀ l ∈ ls, S.free t l = true) : Within C t s S (S.ran t s ls) :=
  ReflTransGen.single (Or.inr (Or.inr ⟨ls, h, rfl⟩))

/-- What every move of others and every own statement respects holds over
a transaction. -/
theorem Within.lift {P : Shared Row ε Site Call Req Res → Prop}
    (hP : ∀ j S S', j ≠ t → Move C j S S' → P S → P S')
    (hbegin : ∀ S, P S → P (S.begin t s))
    (hran : ∀ S ls, P S → P (S.ran t s ls))
    (h : Within C t s S S') (hS : P S) : P S' := by
  induction h with
  | refl => exact hS
  | tail _ hstep ih =>
      rcases hstep with ⟨j, hj, hmove⟩ | rfl | ⟨ls, -, rfl⟩
      · exact hP _ _ _ hj hmove ih
      · exact hbegin _ ih
      · exact hran _ _ ih

/-- A row pinned at one moment of a transaction is the same until its
end. -/
theorem Within.find?_eq (h : Within C t s S S') {k : Key} {l : Lock Key Index}
    (hl : l.Pins k) (hlock : (t, l) ∈ S.locks) :
    S'.db.find? k = S.db.find? k :=
  (h.lift
    (P := fun X => (t, l) ∈ X.locks ∧ X.db.find? k = S.db.find? k)
    (fun _ _ _ hj hm hX =>
      ⟨hm.mem_locks hj hX.1, (hm.find?_eq hj hl hX.1).trans hX.2⟩)
    (fun _ hX => hX)
    (fun _ ls hX => ⟨List.mem_append_right (ls.map fun l => (t, l)) hX.1, hX.2⟩)
    ⟨hlock, rfl⟩).2

/-- A unique entry claimed at one moment of a transaction is not newly
occupied before its end. -/
theorem Within.mem_of_index (h : Within C t s S S') {i : Index}
    (hlock : (t, .index i) ∈ S.locks) {x : Row} (hx : x ∈ S'.db.rows)
    (hi : i ∈ Schema.indexes x) : x ∈ S.db.rows :=
  (h.lift
    (P := fun X => (t, (.index i : Lock Key Index)) ∈ X.locks ∧
      ∀ x ∈ X.db.rows, i ∈ Schema.indexes x → x ∈ S.db.rows)
    (fun _ _ _ hj hm hX =>
      ⟨hm.mem_locks hj hX.1, fun x hx hi =>
        hX.2 x (hm.mem_of_index hj hX.1 hx hi) hi⟩)
    (fun _ hX => hX)
    (fun _ ls hX => ⟨List.mem_append_right (ls.map fun l => (t, l)) hX.1, hX.2⟩)
    ⟨hlock, fun _ hx _ => hx⟩).2 x hx hi

/-- A row that the transaction has locked for sharing is not deleted. -/
theorem Within.isSome_of_share (h : Within C t s S S') {k : Key}
    (hlock : (t, .share k) ∈ S.locks) (hk : (S.db.find? k).isSome = true) :
    (S'.db.find? k).isSome = true :=
  (h.lift
    (P := fun X => (t, (.share k : Lock Key Index)) ∈ X.locks ∧
      (X.db.find? k).isSome = true)
    (fun _ _ _ hj hm hX =>
      ⟨hm.mem_locks hj hX.1, hm.isSome_of_share hj hX.1 hX.2⟩)
    (fun _ hX => hX)
    (fun _ ls hX => ⟨List.mem_append_right (ls.map fun l => (t, l)) hX.1, hX.2⟩)
    ⟨hlock, hk⟩).2

/-- While a transaction is open, the history only grows. -/
theorem Within.trace_suffix (h : Within C t s S S') : S.trace <:+ S'.trace :=
  h.lift (P := fun X => S.trace <:+ X.trace)
    (fun _ _ _ _ hm hX => hX.trans hm.trace_suffix)
    (fun _ hX => hX.trans (List.suffix_cons _ _))
    (fun _ _ hX => hX.trans (List.suffix_cons _ _)) (List.suffix_refl _)

theorem Within.clock_le (h : Within C t s S S') : S.clock ≤ S'.clock :=
  h.lift (P := fun X => S.clock ≤ X.clock) (fun _ _ _ _ hm hX => Nat.le_trans hX hm.clock_le)
    (fun _ hX => hX) (fun _ _ hX => hX) (Nat.le_refl _)

/-- Past a statement of its transaction, everything that happens until the
commit happens while the transaction is open. -/
theorem Within.split (h : Within C t s S S') {n : Nat}
    (hopen : S.toScene.OpenAt t s n) :
    S'.toScene.OpenAt t s n ∧ ∃ newer, S'.trace = newer ++ S.trace ∧
      ∀ e ∈ newer, e.before.OpenAt t s n := by
  refine h.lift (P := fun X => X.toScene.OpenAt t s n ∧
      ∃ newer, X.trace = newer ++ S.trace ∧ ∀ e ∈ newer, e.before.OpenAt t s n)
    ?_ ?_ ?_ ⟨hopen, [], rfl, by simp⟩
  · rintro j X X' hj hm ⟨⟨o, ho, hot, hos, hon⟩, newer, htr, hall⟩
    refine ⟨⟨o, hm.mem_opens hj ho hot, hot, hos, hon⟩, ?_⟩
    rcases hm.trace_eq with heq | ⟨ev, heq⟩
    · exact ⟨newer, heq.trans htr, hall⟩
    · refine ⟨⟨j, ev, X.toScene⟩ :: newer, by rw [heq, htr]; rfl, ?_⟩
      intro e he
      rcases List.mem_cons.mp he with rfl | he
      · exact ⟨o, ho, hot, hos, hon⟩
      · exact hall e he
  · rintro X ⟨hX, newer, htr, hall⟩
    obtain ⟨o, ho, hot, hos, hon⟩ := hX
    refine ⟨⟨o, List.mem_cons_of_mem _ ho, hot, hos, hon⟩,
      ⟨t, .begin s, X.toScene⟩ :: newer, by rw [List.cons_append, ← htr]; rfl, ?_⟩
    intro e he
    rcases List.mem_cons.mp he with rfl | he
    · exact ⟨o, ho, hot, hos, hon⟩
    · exact hall e he
  · rintro X ls ⟨hX, newer, htr, hall⟩
    obtain ⟨o, ho, hot, hos, hon⟩ := hX
    refine ⟨⟨{ o with done := o.done + 1 }, List.mem_map.mpr ⟨o, ho, if_pos hot⟩,
      hot, hos, Nat.le_succ_of_le hon⟩,
      ⟨t, .statement s, X.toScene⟩ :: newer, by
        rw [List.cons_append, ← htr]; rfl, ?_⟩
    intro e he
    rcases List.mem_cons.mp he with rfl | he
    · exact ⟨o, ho, hot, hos, hon⟩
    · exact hall e he

/-- Every entry made during a transaction was made in a state of it. -/
theorem Within.scenes (h : Within C t s S S') :
    ∃ newer, S'.trace = newer ++ S.trace ∧
      ∀ e ∈ newer, ∃ S₁, Within C t s S S₁ ∧ S₁.toScene = e.before := by
  induction h with
  | refl => exact ⟨[], rfl, by simp⟩
  | @tail X X' hW hstep ih =>
      obtain ⟨newer, htr, hall⟩ := ih
      have hentry : ∀ j ev, X'.trace = ⟨j, ev, X.toScene⟩ :: X.trace →
          ∃ newer, X'.trace = newer ++ S.trace ∧
            ∀ e ∈ newer, ∃ S₁, Within C t s S S₁ ∧ S₁.toScene = e.before := by
        intro j ev htr'
        refine ⟨⟨j, ev, X.toScene⟩ :: newer, by rw [htr', htr, List.cons_append], ?_⟩
        intro e he
        rcases List.mem_cons.mp he with rfl | he
        · exact ⟨X, hW, rfl⟩
        · exact hall e he
      rcases hstep with ⟨j, -, hm⟩ | rfl | ⟨ls, -, rfl⟩
      · rcases hm.trace_eq with htr' | ⟨ev, htr'⟩
        · exact ⟨newer, htr'.trans htr, hall⟩
        · exact hentry j ev htr'
      · exact hentry t _ rfl
      · exact hentry t _ rfl

omit [DecidableEq Key] [DecidableEq Index] in
/-- A statement counts on the open transaction of its thread. -/
theorem Scene.OpenAt.ran {n : Nat} {ls : List (Lock Key Index)}
    (h : S.toScene.OpenAt t s n) : (S.ran t s ls).toScene.OpenAt t s (n + 1) := by
  obtain ⟨o, ho, hot, hos, hon⟩ := h
  exact ⟨{ o with done := o.done + 1 }, List.mem_map.mpr ⟨o, ho, if_pos hot⟩, hot, hos,
    Nat.succ_le_succ hon⟩

omit [DecidableEq Key] [DecidableEq Index] in
/-- A transaction that has run some statements has run fewer. -/
theorem Scene.OpenAt.mono {sc : Scene Row Site Req Env} {n m : Nat} (h : sc.OpenAt t s n)
    (hm : m ≤ n) : sc.OpenAt t s m := by
  obtain ⟨o, ho, hot, hos, hon⟩ := h
  exact ⟨o, ho, hot, hos, Nat.le_trans hm hon⟩

/-- An open transaction stays open, with at least the statements it has run.
-/
theorem Scene.OpenAt.within {n : Nat} (h : S.toScene.OpenAt t s n)
    (hW : Within C t s S S') : S'.toScene.OpenAt t s n :=
  (hW.split h).1

theorem Within.ids_eq (h : Within C t s S S') : S'.ids t = S.ids t :=
  h.lift (P := fun X => X.ids t = S.ids t)
    (fun _ _ _ hj hm hX => (hm.ids_eq hj).trans hX) (fun _ hX => hX)
    (fun _ _ hX => hX) rfl

theorem Within.asked_eq (h : Within C t s S S') : S'.asked t = S.asked t :=
  h.lift (P := fun X => X.asked t = S.asked t)
    (fun _ _ _ hj hm hX => (hm.asked_eq hj).trans hX) (fun _ hX => hX)
    (fun _ _ hX => hX) rfl

theorem Within.committedBy_eq (h : Within C t s S S') :
    S'.committedBy t = S.committedBy t :=
  h.lift (P := fun X => X.committedBy t = S.committedBy t)
    (fun _ _ _ hj hm hX => (hm.committedBy_eq hj).trans hX) (fun _ hX => hX)
    (fun _ _ hX => hX) rfl

theorem Within.enteredBy_eq (h : Within C t s S S') :
    S'.enteredBy t = S.enteredBy t :=
  h.lift (P := fun X => X.enteredBy t = S.enteredBy t)
    (fun _ _ _ hj hm hX => (hm.enteredBy_eq hj).trans hX) (fun _ hX => hX)
    (fun _ _ hX => hX) rfl

theorem Within.mem_live (h : Within C t s S S') {q : Req}
    (hq : (t, q) ∈ S.live) : (t, q) ∈ S'.live :=
  h.lift (P := fun X => (t, q) ∈ X.live)
    (fun _ _ _ hj hm hX => hm.mem_live hj hX) (fun _ hX => hX)
    (fun _ _ hX => hX) hq

-- ============================================ from statement to commit

/-- A row the statement's writes target is at the commit what it was when
the statement ran. -/
theorem Within.find?_of_writes {w : Write Row Key} {ws : List (Write Row Key)}
    (h : Within C t s (S.ran t s (ws.flatMap Write.locks)) S') (hw : w ∈ ws) :
    S'.db.find? w.target = S.db.find? w.target := by
  have hlock : ∃ l : Lock Key Index, l.Pins w.target ∧ l ∈ w.locks := by
    cases w with
    | insert r => exact ⟨.update (key r), Or.inl rfl, List.mem_cons_self⟩
    | update r => exact ⟨.update (key r), Or.inl rfl, List.mem_cons_self⟩
    | erase k => exact ⟨.delete k, Or.inr rfl, List.mem_cons_self⟩
  obtain ⟨l, hpin, hl⟩ := hlock
  exact h.find?_eq hpin (List.mem_append_left _
    (List.mem_map_of_mem (List.mem_flatMap.mpr ⟨w, hw, hl⟩)))

/-- A row that the transaction has written does not change until it commits.
-/
theorem Within.find?_of_write {w : Write Row Key}
    (h : Within C t s (S.ran t s w.locks) S') :
    S'.db.find? w.target = S.db.find? w.target := by
  rw [← List.flatMap_singleton (f := Write.locks)] at h
  exact h.find?_of_writes (List.mem_singleton.mpr rfl)

/-- The same for the view the statement ran on, where no earlier write of
the transaction targets the row. -/
theorem Within.find?_of_view {w : Write Row Key} {ws : List (Write Row Key)}
    (h : Within C t s (S.ran t s w.locks) S')
    (hws : ∀ x ∈ ws, x.target ≠ w.target) :
    S'.db.find? w.target = (applyAll ws S.db).find? w.target := by
  rw [h.find?_of_write, find?_applyAll_ne hws]

/-- A unique entry of an inserted row is occupied by no committed row up to
the commit. -/
theorem Within.index_free {r x : Row} {ws : List (Write Row Key)} {i : Index}
    (h : Within C t s (S.ran t s (Write.insert r).locks) S')
    (hws : ∀ w ∈ ws, w.target ≠ key x)
    (hnone : (applyAll ws S.db).find? (key r) = none)
    (hviol : (applyAll ws S.db).violation r = none)
    (hi : i ∈ Schema.indexes r) (hx : x ∈ S'.db.rows) : i ∉ Schema.indexes x := by
  intro hxi
  have hlock : (t, Lock.index i) ∈ (S.ran t s (Write.insert r).locks).locks :=
    List.mem_append_left _ (List.mem_map_of_mem
      (List.mem_cons_of_mem _ (List.mem_append_left _ (List.mem_map_of_mem hi))))
  have hview : x ∈ (applyAll ws S.db).rows :=
    mem_applyAll_of_ne hws (h.mem_of_index hlock hx hxi)
  have hkey : key x ≠ key r := by
    intro he
    rw [Db.find?_eq_none_iff] at hnone
    exact hnone x hview he
  exact Db.notMem_indexes_of_clashes (Db.violation_eq_none hviol).1 hview hkey hi hxi

end FastRep.Txn
