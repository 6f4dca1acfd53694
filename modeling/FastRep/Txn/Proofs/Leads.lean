/-
The rules for what a program leads to: the parts of a bind, of a handler and
of a thrown error, and that a program which ends alone leads there
(`Prog.Ends.leads`). They take a run apart from its front; what a whole
request leads to is proved along its source, statement by statement.
-/
import FastRep.Txn.Leads
import FastRep.Txn.Proofs.Alone

namespace FastRep.Txn

variable {Row Key Index ε Site Call Choice Env α β : Type}
  [DecidableEq Key] [Schema Row Key Index] [Services Call Choice Env] [DbErrors ε]
  {R R' : Rest Row Env} {p : Prog Row ε Site Call α}

/-- What follows a program starts where it ends. -/
theorem Prog.Leads.of_handle {f : α → Prog Row ε Site Call β} {g : ε → Prog Row ε Site Call β}
    {r : Except ε β} (h : (p.handle f g).Leads R r R') :
    (∃ a R₁, p.Leads R (.ok a) R₁ ∧ (f a).Leads R₁ r R')
      ∨ ∃ e R₁, p.Leads R (.error e) R₁ ∧ (g e).Leads R₁ r R' := by
  induction p generalizing R with
  | pure a => exact .inl ⟨a, R, .pure, h⟩
  | throw e => exact .inr ⟨e, R, .throw, h⟩
  | now k ih =>
      cases h with
      | now n h =>
          exact (ih n h).imp (fun ⟨a, R₁, hp, hf⟩ => ⟨a, R₁, .now n hp, hf⟩)
            fun ⟨e, R₁, hp, hg⟩ => ⟨e, R₁, .now n hp, hg⟩
  | uuid k ih =>
      cases h with
      | uuid h =>
          exact (ih _ h).imp (fun ⟨a, R₁, hp, hf⟩ => ⟨a, R₁, .uuid hp, hf⟩)
            fun ⟨e, R₁, hp, hg⟩ => ⟨e, R₁, .uuid hp, hg⟩
  | enter s k ih =>
      cases h with
      | enter h =>
          exact (ih h).imp (fun ⟨a, R₁, hp, hf⟩ => ⟨a, R₁, .enter hp, hf⟩)
            fun ⟨e, R₁, hp, hg⟩ => ⟨e, R₁, .enter hp, hg⟩
  | call x k ih =>
      cases h with
      | call c n hperform h =>
          exact (ih _ h).imp (fun ⟨a, R₁, hp, hf⟩ => ⟨a, R₁, .call c n hperform hp, hf⟩)
            fun ⟨e, R₁, hp, hg⟩ => ⟨e, R₁, .call c n hperform hp, hg⟩
  | tx i s body k ih =>
      cases h with
      | commits n hbody h =>
          exact (ih _ h).imp (fun ⟨a, R₁, hp, hf⟩ => ⟨a, R₁, .commits n hbody hp, hf⟩)
            fun ⟨e, R₁, hp, hg⟩ => ⟨e, R₁, .commits n hbody hp, hg⟩
      | fails n hbody h =>
          exact (ih _ h).imp (fun ⟨a, R₁, hp, hf⟩ => ⟨a, R₁, .fails n hbody hp, hf⟩)
            fun ⟨e, R₁, hp, hg⟩ => ⟨e, R₁, .fails n hbody hp, hg⟩
      | refused e h =>
          exact (ih _ h).imp (fun ⟨a, R₁, hp, hf⟩ => ⟨a, R₁, .refused e hp, hf⟩)
            fun ⟨e', R₁, hp, hg⟩ => ⟨e', R₁, .refused e hp, hg⟩

theorem Prog.Leads.of_throw {e : ε} {r : Except ε α}
    (h : (Prog.throw e : Prog Row ε Site Call α).Leads R r R') : r = .error e ∧ R' = R := by
  cases h
  exact ⟨rfl, rfl⟩

theorem Prog.Leads.of_pure {a : α} {r : Except ε α}
    (h : (Pure.pure a : Prog Row ε Site Call α).Leads R r R') : r = .ok a ∧ R' = R := by
  cases h
  exact ⟨rfl, rfl⟩

/-- A value of a bind is a value of what follows a value. -/
theorem Prog.Leads.of_bind {f : α → Prog Row ε Site Call β} {b : β}
    (h : (p >>= f).Leads R (.ok b) R') :
    ∃ a R₁, p.Leads R (.ok a) R₁ ∧ (f a).Leads R₁ (.ok b) R' := by
  rcases h.of_handle with hok | ⟨e, R₁, -, hthrow⟩
  · exact hok
  · cases hthrow.of_throw.1

/-- A program that ends alone leads there. -/
theorem Prog.Ends.leads {v : Visit Call Choice} {i i' : Nat} {r : Except ε α}
    (h : p.Ends v i R r i' R') : p.Leads R r R' := by
  induction p generalizing i R with
  | pure a => cases h; exact .pure
  | throw e => cases h; exact .throw
  | now k ih => exact .now _ (ih _ h)
  | uuid k ih => exact .uuid (ih _ h)
  | enter s k ih => exact .enter (ih h)
  | call x k ih =>
      simp only [Prog.Ends, Prog.alone] at h
      split at h
      next a env hperform => exact .call _ _ hperform (ih a h)
      next => cases h
  | tx iso s body k ih =>
      simp only [Prog.Ends, Prog.alone] at h
      split at h
      next b hb => exact .commits _ hb (ih (.ok b) h)
      next e he => exact .fails _ he (ih (.error e) h)

end FastRep.Txn
