/-
The rules for the runs of a program that is alone, with what they encounter.

The first half takes a run apart (`Prog.Meets.of_bind` and its like): what
was encountered is what the parts encountered, in their order, and the end of
one part is the start of the next. The second half is about the moves of a
run (`Prog.Moves`): what a program does to the state is what its commits do,
so a transitive relation that each commit respects holds from the start of a
run to its end.

`Prog.Ends.meets` connects this to the runs a visit decides: they are among
these, and encounter the visit's answers.
-/
import FastRep.Txn.Encounters
import FastRep.Txn.Proofs.Steps
import Mathlib.Order.Defs.Unbundled

namespace FastRep.Txn

variable {Row Key Index ε Site Call Choice Env α β : Type}
  [DecidableEq Key] [Schema Row Key Index] [Services Call Choice Env] [DbErrors ε]
  {R R' : Rest Row Env} {p : Prog Row ε Site Call α} {l : List (Encounter Site Call Choice)}

-- ========================================================= a run in its parts

/-- What follows a program starts where it ends. -/
theorem Prog.Meets.of_handle {f : α → Prog Row ε Site Call β} {g : ε → Prog Row ε Site Call β}
    {r : Except ε β} (h : (p.handle f g).Meets R l r R') :
    ∃ first rest R₁, l = first ++ rest ∧
      ((∃ a, p.Meets R first (.ok a) R₁ ∧ (f a).Meets R₁ rest r R')
        ∨ ∃ e, p.Meets R first (.error e) R₁ ∧ (g e).Meets R₁ rest r R') := by
  induction p generalizing R l with
  | pure a => exact ⟨[], l, R, rfl, .inl ⟨a, .pure, h⟩⟩
  | throw e => exact ⟨[], l, R, rfl, .inr ⟨e, .throw, h⟩⟩
  | now k ih =>
      cases h with
      | now n h =>
          obtain ⟨first, rest, R₁, hl, hparts⟩ := ih n h
          exact ⟨first, rest, R₁, hl, hparts.imp (fun ⟨a, hp, hf⟩ => ⟨a, .now n hp, hf⟩)
            fun ⟨e, hp, hg⟩ => ⟨e, .now n hp, hg⟩⟩
  | uuid k ih =>
      cases h with
      | uuid h =>
          obtain ⟨first, rest, R₁, hl, hparts⟩ := ih _ h
          exact ⟨first, rest, R₁, hl, hparts.imp (fun ⟨a, hp, hf⟩ => ⟨a, .uuid hp, hf⟩)
            fun ⟨e, hp, hg⟩ => ⟨e, .uuid hp, hg⟩⟩
  | enter s k ih =>
      cases h with
      | enter h =>
          obtain ⟨first, rest, R₁, hl, hparts⟩ := ih h
          exact ⟨first, rest, R₁, hl, hparts.imp (fun ⟨a, hp, hf⟩ => ⟨a, .enter hp, hf⟩)
            fun ⟨e, hp, hg⟩ => ⟨e, .enter hp, hg⟩⟩
  | call x k ih =>
      cases h with
      | call c n hperform h =>
          obtain ⟨first, rest, R₁, hl, hparts⟩ := ih _ h
          exact ⟨.answered x c :: first, rest, R₁, congrArg (_ :: ·) hl,
            hparts.imp (fun ⟨a, hp, hf⟩ => ⟨a, .call c n hperform hp, hf⟩)
              fun ⟨e, hp, hg⟩ => ⟨e, .call c n hperform hp, hg⟩⟩
  | tx i s body k ih =>
      cases h with
      | commits n hbody h =>
          obtain ⟨first, rest, R₁, hl, hparts⟩ := ih _ h
          exact ⟨first, rest, R₁, hl, hparts.imp (fun ⟨a, hp, hf⟩ => ⟨a, .commits n hbody hp, hf⟩)
            fun ⟨e, hp, hg⟩ => ⟨e, .commits n hbody hp, hg⟩⟩
      | fails n hbody h =>
          obtain ⟨first, rest, R₁, hl, hparts⟩ := ih _ h
          exact ⟨first, rest, R₁, hl, hparts.imp (fun ⟨a, hp, hf⟩ => ⟨a, .fails n hbody hp, hf⟩)
            fun ⟨e, hp, hg⟩ => ⟨e, .fails n hbody hp, hg⟩⟩
      | refused e h =>
          obtain ⟨first, rest, R₁, hl, hparts⟩ := ih _ h
          exact ⟨.refused s e :: first, rest, R₁, congrArg (_ :: ·) hl,
            hparts.imp (fun ⟨a, hp, hf⟩ => ⟨a, .refused e hp, hf⟩)
              fun ⟨e', hp, hg⟩ => ⟨e', .refused e hp, hg⟩⟩

theorem Prog.Meets.of_pure {a : α} {r : Except ε α}
    (h : (Pure.pure a : Prog Row ε Site Call α).Meets R l r R') : l = [] ∧ r = .ok a ∧ R' = R := by
  cases h
  exact ⟨rfl, rfl, rfl⟩

theorem Prog.Meets.of_throw {e : ε} {r : Except ε α}
    (h : (Prog.throw e : Prog Row ε Site Call α).Meets R l r R') :
    l = [] ∧ r = .error e ∧ R' = R := by
  cases h
  exact ⟨rfl, rfl, rfl⟩

/-- A bind runs its first part to a value, or ends with it. -/
theorem Prog.Meets.of_bind {f : α → Prog Row ε Site Call β} {r : Except ε β}
    (h : (p >>= f).Meets R l r R') :
    (∃ first rest R₁ a, l = first ++ rest ∧ p.Meets R first (.ok a) R₁ ∧
      (f a).Meets R₁ rest r R') ∨ ∃ e, p.Meets R l (.error e) R' ∧ r = .error e := by
  obtain ⟨first, rest, R₁, hl, ⟨a, hp, hf⟩ | ⟨e, hp, hthrow⟩⟩ := h.of_handle
  · exact .inl ⟨first, rest, R₁, a, hl, hp, hf⟩
  · obtain ⟨rfl, hr, rfl⟩ := hthrow.of_throw
    rw [List.append_nil] at hl
    exact .inr ⟨e, hl ▸ hp, hr⟩

/-- An attempt ends in the result of its program. -/
theorem Prog.Meets.of_attempt {r : Except ε (Except ε α)} (h : p.attempt.Meets R l r R') :
    ∃ a, r = .ok a ∧ p.Meets R l a R' := by
  obtain ⟨first, rest, R₁, hl, ⟨a, hp, hf⟩ | ⟨e, hp, hf⟩⟩ := h.of_handle
  · obtain ⟨rfl, hr, rfl⟩ := hf.of_pure
    rw [List.append_nil] at hl
    exact ⟨_, hr, hl ▸ hp⟩
  · obtain ⟨rfl, hr, rfl⟩ := hf.of_pure
    rw [List.append_nil] at hl
    exact ⟨_, hr, hl ▸ hp⟩

theorem Prog.Meets.of_settle {r : Except ε α} {a : Except ε α}
    (h : (Prog.settle a : Prog Row ε Site Call α).Meets R l r R') : l = [] ∧ r = a ∧ R' = R := by
  cases a with
  | ok a => exact h.of_pure
  | error e => exact h.of_throw

/-- Drawing an id meets nothing, and takes the next one. -/
theorem Prog.Meets.of_uuid {r : Except ε Nat}
    (h : (randomUUID : Prog Row ε Site Call Nat).Meets R l r R') :
    l = [] ∧ r = .ok R.nextId ∧ R' = { R with nextId := R.nextId + 1 } := by
  cases h with
  | uuid h => exact h.of_pure

theorem Prog.Meets.of_await {x : Call} {r : Except ε (Services.Answer x)}
    (h : (await x : Prog Row ε Site Call (Services.Answer x)).Meets R l r R') :
    ∃ c n a env, Services.perform x c n R.env = some (a, env) ∧ l = [.answered x c] ∧
      r = .ok a ∧ R' = { R with env } := by
  cases h with
  | call c n hperform h =>
      obtain ⟨rfl, hr, hR⟩ := h.of_pure
      exact ⟨c, n, _, _, hperform, rfl, hr, hR⟩

/-- A transaction commits, fails with an error of its body, or is refused. -/
theorem Prog.Meets.of_tx {i : Isolation} {s : Site} {body : Tx Row ε α} {r : Except ε α}
    (h : (Prog.tx i s body Prog.settle : Prog Row ε Site Call α).Meets R l r R') :
    (∃ n b, (body.run n R.db).result = .ok b ∧ l = [] ∧ r = .ok b ∧
      R' = { R with db := applyAll (body.run n R.db).writes R.db })
    ∨ (∃ n e, (body.run n R.db).result = .error e ∧ l = [] ∧ r = .error e ∧ R' = R)
    ∨ ∃ e, l = [.refused s e] ∧ r = .error (raise e) ∧ R' = R := by
  cases h with
  | commits n hbody h =>
      obtain ⟨hl, hr, hR⟩ := h.of_settle
      exact .inl ⟨n, _, hbody, hl, hr, hR⟩
  | fails n hbody h =>
      obtain ⟨hl, hr, hR⟩ := h.of_settle
      exact .inr (.inl ⟨n, _, hbody, hl, hr, hR⟩)
  | refused e h =>
      obtain ⟨rfl, hr, hR⟩ := h.of_settle
      exact .inr (.inr ⟨e, rfl, hr, hR⟩)

/-- The encounters of a run that a visit decides. -/
def Visit.encounters (v : Visit Call Choice) (steps : List (Option Call)) :
    List (Encounter Site Call Choice) :=
  steps.filterMap fun step => step.map fun x => .answered x (v.answer x)

/-- What a visit encounters are its own answers. -/
theorem Visit.mem_encounters {v : Visit Call Choice} {steps : List (Option Call)}
    {x : Encounter Site Call Choice} (h : x ∈ v.encounters steps) :
    ∃ y, x = .answered y (v.answer y) := by
  obtain ⟨step, -, hx⟩ := List.mem_filterMap.mp h
  obtain ⟨y, -, rfl⟩ := Option.map_eq_some_iff.mp hx
  exact ⟨y, rfl⟩

/-- A program that ends alone meets what the visit answers. -/
theorem Prog.Ends.meets {v : Visit Call Choice} {i i' : Nat} {r : Except ε α}
    (h : p.Ends v i R r i' R') : p.Meets R (v.encounters (p.steps v i R)) r R' := by
  induction p generalizing i R with
  | pure a => cases h; exact .pure
  | throw e => cases h; exact .throw
  | now k ih => exact .now _ (ih _ h)
  | uuid k ih => exact .uuid (ih _ h)
  | enter s k ih => exact .enter (ih h)
  | call x k ih =>
      simp only [Prog.Ends, Prog.alone] at h
      split at h
      next a env hperform =>
          simp only [Prog.steps, hperform]
          exact .call _ _ hperform (ih a h)
      next => cases h
  | tx iso s body k ih =>
      simp only [Prog.Ends, Prog.alone] at h
      split at h
      next b hb =>
          simp only [Prog.steps, hb]
          exact .commits _ hb (ih (.ok b) h)
      next e he =>
          simp only [Prog.steps, he]
          exact .fails _ he (ih (.error e) h)

/-- The calls a run makes are calls of the program. -/
theorem Prog.Calls.of_meets {ok : Call → Prop} (hp : p.Calls ok) {r : Except ε α}
    (h : p.Meets R l r R') {x : Call} {c : Choice} (hx : .answered x c ∈ l) : ok x := by
  induction hp generalizing R l with
  | pure => cases h; cases hx
  | throw => cases h; cases hx
  | now _ ih =>
      cases h with
      | now n h => exact ih n h hx
  | uuid _ ih =>
      cases h with
      | uuid h => exact ih _ h hx
  | enter _ ih =>
      cases h with
      | enter h => exact ih h hx
  | call hok _ ih =>
      cases h with
      | call c n hperform h =>
          rcases List.mem_cons.mp hx with he | hx
          · cases he
            exact hok
          · exact ih _ h hx
  | tx _ ih =>
      cases h with
      | commits n hbody h => exact ih _ h hx
      | fails n hbody h => exact ih _ h hx
      | refused e h =>
          rcases List.mem_cons.mp hx with he | hx
          · cases he
          · exact ih _ h hx

-- ============================================================ moves of runs

section Moves

variable {M : Rest Row Env → Rest Row Env → Prop} [IsPreorder (Rest Row Env) M]

/-- A program moves from state to state as its parts do. -/
theorem Prog.Moves.handle {f : α → Prog Row ε Site Call β} {g : ε → Prog Row ε Site Call β}
    (h : p.Moves M) (hf : ∀ a, (f a).Moves M) (hg : ∀ e, (g e).Moves M) :
    (p.handle f g).Moves M := by
  intro R l r R' hrun
  obtain ⟨first, rest, R₁, -, ⟨a, hp, hrest⟩ | ⟨e, hp, hrest⟩⟩ := hrun.of_handle
  · exact trans_of M (h R first _ R₁ hp) (hf a R₁ rest r R' hrest)
  · exact trans_of M (h R first _ R₁ hp) (hg e R₁ rest r R' hrest)

theorem Prog.Moves.pure {a : α} : (Pure.pure a : Prog Row ε Site Call α).Moves M := by
  intro R l r R' hrun
  obtain ⟨-, -, rfl⟩ := hrun.of_pure
  exact refl_of M _

theorem Prog.Moves.throw {e : ε} : (Prog.throw e : Prog Row ε Site Call α).Moves M := by
  intro R l r R' hrun
  obtain ⟨-, -, rfl⟩ := hrun.of_throw
  exact refl_of M _

theorem Prog.Moves.bind {f : α → Prog Row ε Site Call β} (h : p.Moves M)
    (hf : ∀ a, (f a).Moves M) : (p >>= f).Moves M :=
  Prog.Moves.handle h hf fun _ => Prog.Moves.throw

theorem Prog.Moves.clock : (Prog.clock : Prog Row ε Site Call Nat).Moves M := by
  intro R l r R' hrun
  cases hrun with
  | now n h =>
      obtain ⟨-, -, rfl⟩ := h.of_pure
      exact refl_of M _

theorem Prog.Moves.settle {a : Except ε α} :
    (Prog.settle a : Prog Row ε Site Call α).Moves M := by
  intro R l r R' hrun
  obtain ⟨-, -, rfl⟩ := hrun.of_settle
  exact refl_of M _

/-- A transaction moves the state as its commits do. -/
theorem Prog.Moves.tx {i : Isolation} {s : Site} {body : Tx Row ε α}
    (h : ∀ (R : Rest Row Env) n b, (body.run n R.db).result = .ok b →
      M R { R with db := applyAll (body.run n R.db).writes R.db }) :
    (Prog.tx i s body Prog.settle : Prog Row ε Site Call α).Moves M := by
  intro R l r R' hrun
  rcases hrun.of_tx with ⟨n, b, hb, -, -, rfl⟩ | ⟨n, e, -, -, -, rfl⟩ | ⟨e, -, -, rfl⟩
  · exact h R n b hb
  · exact refl_of M _
  · exact refl_of M _

end Moves

end FastRep.Txn
