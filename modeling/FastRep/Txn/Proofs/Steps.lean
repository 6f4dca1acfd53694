/-
The rules for the steps of a program that runs alone.

Three things are said of the steps. Which calls a program makes at all, in
any run (`Prog.Calls`): a walk along the program, with no state. Which steps
a run takes (`Prog.Ends.steps_bind`): those of the parts, one after the other,
each at one of the visit's times. And where in the run the steps of a part
come (`Prog.Comes`): what a program starts with comes first, whatever
follows, so a loop's calls can be found in the run of the whole request
without running what comes after it.
-/
import FastRep.Txn.Steps
import FastRep.Txn.Proofs.Alone

namespace FastRep.Txn

variable {Row Key Index ε Site Call Choice Env α β : Type}
  [Schema Row Key Index] [Services Call Choice Env] {ok : Call → Prop}

-- =============================================================== the calls

/-- The calls of a program are those of its parts. -/
theorem Prog.Calls.handle {p : Prog Row ε Site Call α} {f : α → Prog Row ε Site Call β}
    {g : ε → Prog Row ε Site Call β} (h : p.Calls ok) (hf : ∀ a, (f a).Calls ok)
    (hg : ∀ e, (g e).Calls ok) : (p.handle f g).Calls ok := by
  induction h with
  | pure => exact hf _
  | throw => exact hg _
  | now h ih => exact .now ih
  | uuid h ih => exact .uuid ih
  | enter h ih => exact .enter ih
  | call hx h ih => exact .call hx ih
  | tx h ih => exact .tx ih

theorem Prog.Calls.mono {ok' : Call → Prop} {p : Prog Row ε Site Call α} (h : p.Calls ok)
    (hok : ∀ x, ok x → ok' x) : p.Calls ok' := by
  induction h with
  | pure => exact .pure
  | throw => exact .throw
  | now h ih => exact .now ih
  | uuid h ih => exact .uuid ih
  | enter h ih => exact .enter ih
  | call hx h ih => exact .call (hok _ hx) ih
  | tx h ih => exact .tx ih

theorem Prog.Calls.bind {p : Prog Row ε Site Call α} {f : α → Prog Row ε Site Call β}
    (h : p.Calls ok) (hf : ∀ a, (f a).Calls ok) : (p >>= f).Calls ok :=
  .handle h hf fun _ => .throw

theorem Prog.Calls.catch {p : Prog Row ε Site Call α} {g : ε → Prog Row ε Site Call α}
    (h : p.Calls ok) (hg : ∀ e, (g e).Calls ok) : (p.catch g).Calls ok :=
  .handle h (fun _ => .pure) hg

theorem Prog.Calls.attempt {p : Prog Row ε Site Call α} (h : p.Calls ok) :
    p.attempt.Calls ok :=
  .handle h (fun _ => .pure) fun _ => .pure

theorem Prog.Calls.clock : (Prog.clock : Prog Row ε Site Call Nat).Calls ok :=
  .now fun _ => .pure

theorem Prog.Calls.settle {r : Except ε α} :
    (Prog.settle r : Prog Row ε Site Call α).Calls ok := by
  cases r with
  | ok a => exact .pure
  | error e => exact .throw

/-- The one call of a program that is one. -/
theorem Prog.Calls.await {x : Call} (h : ok x) :
    (await x : Prog Row ε Site Call (Services.Answer x)).Calls ok :=
  .call h fun _ => .pure

theorem Prog.Calls.transaction {s : Site} {body : Tx Row ε α} :
    (transaction s body : Prog Row ε Site Call α).Calls ok :=
  .tx fun _ => .settle

theorem Prog.Calls.serializable {s : Site} {body : Tx Row ε α} :
    (serializable s body : Prog Row ε Site Call α).Calls ok :=
  .tx fun _ => .settle

-- =============================================================== the steps

variable [DecidableEq Key] {v : Visit Call Choice} {i i' : Nat} {R R' : Rest Row Env}

/-- Each step takes one of the visit's times. -/
theorem Prog.Ends.index {p : Prog Row ε Site Call α} {r : Except ε α}
    (h : p.Ends v i R r i' R') : i' = i + (p.steps v i R).length := by
  induction p generalizing i R with
  | pure a => cases h; rfl
  | throw e => cases h; rfl
  | now k ih =>
      rw [ih _ h, Prog.steps, List.length_cons, Nat.add_right_comm, Nat.add_assoc]
  | uuid k ih => exact ih _ h
  | enter s k ih => exact ih h
  | call x k ih =>
      simp only [Prog.Ends, Prog.alone] at h
      split at h
      next a env hperform =>
          rw [ih a h, Prog.steps, hperform, List.length_cons, Nat.add_right_comm, Nat.add_assoc]
      next => cases h
  | tx iso s body k ih =>
      simp only [Prog.Ends, Prog.alone] at h
      split at h
      next b hb =>
          rw [ih (.ok b) h]
          simp only [Prog.steps, hb, List.length_cons]
          omega
      next e he =>
          rw [ih (.error e) h]
          simp only [Prog.steps, he, List.length_cons]
          omega

/-- The steps of what follows come after. -/
theorem Prog.Ends.steps_handle {p : Prog Row ε Site Call α} {r : Except ε α}
    (h : p.Ends v i R r i' R') (q : Except ε α → Prog Row ε Site Call β) :
    (p.handle (fun a => q (.ok a)) fun e => q (.error e)).steps v i R
      = p.steps v i R ++ (q r).steps v i' R' := by
  induction p generalizing i R with
  | pure a => cases h; rfl
  | throw e => cases h; rfl
  | now k ih => exact congrArg (none :: ·) (ih _ h)
  | uuid k ih => exact ih _ h
  | enter s k ih => exact ih h
  | call x k ih =>
      simp only [Prog.Ends, Prog.alone] at h
      split at h
      next a env hperform =>
          simp only [Prog.handle, Prog.steps, hperform, List.cons_append]
          exact congrArg (some x :: ·) (ih a h)
      next => cases h
  | tx iso s body k ih =>
      simp only [Prog.Ends, Prog.alone] at h
      split at h
      next b hb =>
          simp only [Prog.handle, Prog.steps, hb, List.cons_append]
          exact congrArg (none :: ·) (ih (.ok b) h)
      next e he =>
          simp only [Prog.handle, Prog.steps, he, List.cons_append]
          exact congrArg (none :: ·) (ih (.error e) h)

/-- Where a program does not get to its end, nothing follows. -/
theorem Prog.steps_handle_of_none {p : Prog Row ε Site Call α} (h : p.alone v i R = none)
    (f : α → Prog Row ε Site Call β) (g : ε → Prog Row ε Site Call β) :
    (p.handle f g).steps v i R = p.steps v i R := by
  induction p generalizing i R with
  | pure a => cases h
  | throw e => cases h
  | now k ih => exact congrArg (none :: ·) (ih _ h)
  | uuid k ih => exact ih _ h
  | enter s k ih => exact ih h
  | call x k ih =>
      simp only [Prog.alone] at h
      split at h
      next a env hperform =>
          simp only [Prog.handle, Prog.steps, hperform]
          exact congrArg (some x :: ·) (ih a h)
      next hperform => simp only [Prog.handle, Prog.steps, hperform]
  | tx iso s body k ih =>
      simp only [Prog.alone] at h
      split at h
      next b hb =>
          simp only [Prog.handle, Prog.steps, hb]
          exact congrArg (none :: ·) (ih (.ok b) h)
      next e he =>
          simp only [Prog.handle, Prog.steps, he]
          exact congrArg (none :: ·) (ih (.error e) h)

/-- What is run after a program, for its value or its error. -/
def Prog.resume (f : α → Prog Row ε Site Call β) (g : ε → Prog Row ε Site Call β) :
    Except ε α → Prog Row ε Site Call β
  | .ok a => f a
  | .error e => g e

/-- The steps of a program and of what follows it, for a property of both. -/
theorem Prog.steps_handle_cases {p : Prog Row ε Site Call α} {f : α → Prog Row ε Site Call β}
    {g : ε → Prog Row ε Site Call β} {P : List (Option Call) → Prop}
    (hstuck : P (p.steps v i R))
    (hok : ∀ a i' R', p.Ends v i R (.ok a) i' R' →
      P (p.steps v i R ++ (f a).steps v i' R'))
    (herror : ∀ e i' R', p.Ends v i R (.error e) i' R' →
      P (p.steps v i R ++ (g e).steps v i' R')) :
    P ((p.handle f g).steps v i R) := by
  cases h : p.alone v i R with
  | none =>
      rw [Prog.steps_handle_of_none h]
      exact hstuck
  | some o =>
      obtain ⟨r, i', R'⟩ := o
      have hsteps := Prog.Ends.steps_handle h (Prog.resume f g)
      cases r with
      | ok a => exact hsteps ▸ hok a i' R' h
      | error e => exact hsteps ▸ herror e i' R' h

/-- The steps of two parts, one after the other. -/
theorem Prog.Ends.steps_bind {p : Prog Row ε Site Call α} {f : α → Prog Row ε Site Call β} {a : α}
    (h : p.Ends v i R (.ok a) i' R') :
    (p >>= f).steps v i R = p.steps v i R ++ (f a).steps v i' R' :=
  h.steps_handle (Prog.andThen f)

/-- The calls among the steps of a run are calls of the program. -/
theorem Prog.Calls.of_mem {p : Prog Row ε Site Call α} (h : p.Calls ok) {x : Call}
    (hx : some x ∈ p.steps v i R) : ok x := by
  induction h generalizing i R with
  | pure => cases hx
  | throw => cases hx
  | now h ih =>
      rcases List.mem_cons.mp hx with hx | hx
      · cases hx
      · exact ih _ hx
  | uuid h ih => exact ih _ hx
  | enter h ih => exact ih hx
  | call hok h ih =>
      simp only [Prog.steps] at hx
      rcases List.mem_cons.mp hx with hxy | hx
      · cases hxy
        exact hok
      · split at hx
        next => exact ih _ hx
        next => cases hx
  | tx h ih =>
      simp only [Prog.steps] at hx
      rcases List.mem_cons.mp hx with hx | hx
      · cases hx
      · split at hx
        next => exact ih _ hx
        next => exact ih _ hx

-- ======================================================= where steps come

section Comes

variable {p : Prog Row ε Site Call α} {j : Nat} {l : List (Option Call)}

/-- What a program starts with comes from its first step on. -/
theorem Prog.Comes.of_steps (h : l <+: p.steps v i R) : p.Comes v i R i l :=
  ⟨[], rfl, h⟩

/-- The steps of a program come first, whatever follows. -/
theorem Prog.prefix_handle (h : l <+: p.steps v i R) {f : α → Prog Row ε Site Call β}
    {g : ε → Prog Row ε Site Call β} : l <+: (p.handle f g).steps v i R :=
  Prog.steps_handle_cases (P := (l <+: ·)) h
    (fun _ _ _ _ => h.trans (List.prefix_append _ _))
    fun _ _ _ _ => h.trans (List.prefix_append _ _)

/-- What the first part starts with, the whole does. -/
theorem Prog.prefix_bind (h : l <+: p.steps v i R) {f : α → Prog Row ε Site Call β} :
    l <+: (p >>= f).steps v i R := Prog.prefix_handle h

/-- What comes in the first part comes in the whole. -/
theorem Prog.Comes.handle (h : p.Comes v i R j l) {f : α → Prog Row ε Site Call β}
    {g : ε → Prog Row ε Site Call β} : (p.handle f g).Comes v i R j l := by
  obtain ⟨earlier, hj, hl⟩ := h
  exact ⟨earlier, hj, Prog.prefix_handle hl⟩

theorem Prog.Comes.first (h : p.Comes v i R j l) {f : α → Prog Row ε Site Call β} :
    (p >>= f).Comes v i R j l := h.handle

/-- What comes after a program that ends. -/
theorem Prog.Comes.bind {a : α} (h : p.Ends v i R (.ok a) i' R')
    {f : α → Prog Row ε Site Call β} (hf : (f a).Comes v i' R' j l) :
    (p >>= f).Comes v i R j l := by
  obtain ⟨earlier, hj, hl⟩ := hf
  refine ⟨p.steps v i R ++ earlier, ?_, ?_⟩
  · rw [hj, h.index, List.length_append, Nat.add_assoc]
  · rw [h.steps_bind, List.append_assoc]
    exact List.prefix_append_right_inj _ |>.mpr hl

/-- A step that comes at an index stands there. -/
theorem Prog.Comes.getElem? (h : p.Comes v 0 R j l) {k : Nat} {step : Option Call}
    (hk : l[k]? = some step) : (p.steps v 0 R)[j + k]? = some step := by
  obtain ⟨earlier, hj, rest, hl⟩ := h
  have hlt := (List.getElem?_eq_some_iff.mp hk).1
  rw [Nat.zero_add] at hj
  rw [← hl, List.append_assoc, hj, List.getElem?_append_right (Nat.le_add_right _ _),
    Nat.add_sub_cancel_left, List.getElem?_append_left hlt]
  exact hk

end Comes

end FastRep.Txn
