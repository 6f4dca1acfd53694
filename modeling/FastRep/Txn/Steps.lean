/-
The steps of a program that runs alone, in their order.

`Prog.alone` says what such a run ends in; `Prog.steps` says what it does on
the way: each call, and each reading of the clock or transaction. Its `j`-th
step takes place at the visit's `j`-th time and is over when the next one
begins. `Prog.Calls` bounds the calls of a program whatever happens.
-/
import FastRep.Txn.Alone

namespace FastRep.Txn

variable {Row Key Index ε Site Call Choice Env α : Type}
  [DecidableEq Key] [Schema Row Key Index] [Services Call Choice Env]

/-- The steps of a run: its calls, and `none` for what is no call. -/
def Prog.steps (v : Visit Call Choice) :
    Prog Row ε Site Call α → Nat → Rest Row Env → List (Option Call)
  | .pure _, _, _ => []
  | .throw _, _, _ => []
  | .now k, i, R => none :: (k (v.times i)).steps v (i + 1) R
  | .uuid k, i, R => (k R.nextId).steps v i { R with nextId := R.nextId + 1 }
  | .enter _ k, i, R => k.steps v i R
  | .call x k, i, R => some x ::
      match Services.perform x (v.answer x) (v.times i) R.env with
      | some (a, env) => (k a).steps v (i + 1) { R with env }
      | none => []
  | .tx _ _ body k, i, R => none ::
      let o := body.run (v.times i) R.db
      match o.result with
      | .ok b => (k (.ok b)).steps v (i + 1) { R with db := applyAll o.writes R.db }
      | .error e => (k (.error e)).steps v (i + 1) R

/-- Every call of the program, on any path, is one of these. -/
inductive Prog.Calls (ok : Call → Prop) : Prog Row ε Site Call α → Prop
  | pure {a : α} : Calls ok (.pure a)
  | throw {e : ε} : Calls ok (.throw e)
  | now {k : Nat → Prog Row ε Site Call α} (h : ∀ n, Calls ok (k n)) : Calls ok (.now k)
  | uuid {k : Nat → Prog Row ε Site Call α} (h : ∀ n, Calls ok (k n)) : Calls ok (.uuid k)
  | enter {s : Site} {k : Prog Row ε Site Call α} (h : Calls ok k) : Calls ok (.enter s k)
  | call {x : Call} {k : Services.Answer x → Prog Row ε Site Call α} (hx : ok x)
      (h : ∀ a, Calls ok (k a)) : Calls ok (.call x k)
  | tx {β : Type} {i : Isolation} {s : Site} {body : Tx Row ε β}
      {k : Except ε β → Prog Row ε Site Call α} (h : ∀ r, Calls ok (k r)) :
      Calls ok (.tx i s body k)

/-- From index `i` on, these steps come at index `j` of the run. -/
def Prog.Comes (p : Prog Row ε Site Call α) (v : Visit Call Choice) (i : Nat) (R : Rest Row Env)
    (j : Nat) (steps : List (Option Call)) : Prop :=
  ∃ earlier, j = i + earlier.length ∧ earlier ++ steps <+: p.steps v i R

end FastRep.Txn
