/-
A program that runs alone, to its end, with nobody in between.

`Prog.alone` evaluates it in one go. What stays open is what the outside
decides: the answers of the services, and the times at which the program
reads the clock, calls and runs its transactions (`Visit`). `App.visits` lets one
request after the other run so and collects what they return.

Statements about what one caller sees are made here: whether two databases
can be told apart by the answers, or which answers a sequence of requests
gets. That the machine can in fact run a program alone is
`World.runs_alone`, so such a statement is about some of the machine's runs.
-/
import FastRep.Txn.Machine
import Mathlib.Order.Monotone.Basic

namespace FastRep.Txn

/-- What a program that runs alone finds and leaves. -/
structure Rest (Row Env : Type) {Key Index : Type} [Schema Row Key Index] where
  db : Db Row
  env : Env
  nextId : Nat

/-- One run of a program alone, as the outside decides it: what the services
answer, and the time of its `i`-th reading of the clock, call or
transaction. -/
structure Visit (Call Choice : Type) where
  answer : Call → Choice
  times : Nat → Nat
  mono : Monotone times

variable {Row Key Index ε Site Call Choice Env Req Res α : Type}
  [DecidableEq Key] [Schema Row Key Index] [Services Call Choice Env]

/-- The result of a program, how often it read the clock, and what it
leaves; `none` where a service cannot answer as the visit says. -/
def Prog.alone (v : Visit Call Choice) : Prog Row ε Site Call α → Nat → Rest Row Env →
    Option (Except ε α × Nat × Rest Row Env)
  | .pure a, i, R => some (.ok a, i, R)
  | .throw e, i, R => some (.error e, i, R)
  | .now k, i, R => (k (v.times i)).alone v (i + 1) R
  | .uuid k, i, R => (k R.nextId).alone v i { R with nextId := R.nextId + 1 }
  | .enter _ k, i, R => k.alone v i R
  | .call x k, i, R =>
      match Services.perform x (v.answer x) (v.times i) R.env with
      | some (a, env) => (k a).alone v (i + 1) { R with env }
      | none => none
  | .tx _ _ body k, i, R =>
      let o := body.run (v.times i) R.db
      match o.result with
      | .ok b => (k (.ok b)).alone v (i + 1) { R with db := applyAll o.writes R.db }
      | .error e => (k (.error e)).alone v (i + 1) R

/-- How a transaction runs alone. -/
alias Prog.alone_tx := Prog.alone.eq_7

/-- The results of a request that is made again and again, one visit after
the other. -/
def App.visits (app : App Row ε Site Call Req Res) (q : Req) :
    List (Visit Call Choice) → Rest Row Env → Option (List (Except ε Res))
  | [], _ => some []
  | v :: vs, R =>
      match (app.main q).alone v 0 R with
      | some (r, _, R') => (app.visits q vs R').map (r :: ·)
      | none => none

end FastRep.Txn
