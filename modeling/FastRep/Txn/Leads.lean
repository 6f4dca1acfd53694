/-
What a program that runs alone can lead to, when every call may fail and
every transaction may be refused.

`Prog.alone` fixes the answers of the services and lets every transaction
through. `Prog.Leads` leaves both open: each call has any outcome its service
can give, at any time, and a transaction may also end in an error of the
database with nothing committed. What one request does in every case is a
statement about this relation, taken apart step by step.
-/
import FastRep.Txn.Alone

namespace FastRep.Txn

variable {Row Key Index ε Site Call Choice Env α β : Type}
  [DecidableEq Key] [Schema Row Key Index] [Services Call Choice Env] [DbErrors ε]

/-- A program ends in a result and takes one state to another. -/
inductive Prog.Leads : Prog Row ε Site Call α → Rest Row Env → Except ε α → Rest Row Env → Prop
  | pure {a : α} {R : Rest Row Env} : Leads (.pure a) R (.ok a) R
  | throw {e : ε} {R : Rest Row Env} : Leads (.throw e) R (.error e) R
  | now {k : Nat → Prog Row ε Site Call α} {R R' : Rest Row Env} {r : Except ε α} (n : Nat)
      (h : Leads (k n) R r R') : Leads (.now k) R r R'
  | uuid {k : Nat → Prog Row ε Site Call α} {R R' : Rest Row Env} {r : Except ε α}
      (h : Leads (k R.nextId) { R with nextId := R.nextId + 1 } r R') : Leads (.uuid k) R r R'
  | enter {s : Site} {k : Prog Row ε Site Call α} {R R' : Rest Row Env} {r : Except ε α}
      (h : Leads k R r R') : Leads (.enter s k) R r R'
  | call {x : Call} {k : Services.Answer x → Prog Row ε Site Call α} {R R' : Rest Row Env}
      {r : Except ε α} (c : Choice) (n : Nat) {a : Services.Answer x} {env : Env}
      (hperform : Services.perform x c n R.env = some (a, env))
      (h : Leads (k a) { R with env } r R') : Leads (.call x k) R r R'
  | commits {β : Type} {i : Isolation} {s : Site} {body : Tx Row ε β}
      {k : Except ε β → Prog Row ε Site Call α} {R R' : Rest Row Env} {r : Except ε α} (n : Nat)
      {b : β} (hbody : (body.run n R.db).result = .ok b)
      (h : Leads (k (.ok b)) { R with db := applyAll (body.run n R.db).writes R.db } r R') :
      Leads (.tx i s body k) R r R'
  | fails {β : Type} {i : Isolation} {s : Site} {body : Tx Row ε β}
      {k : Except ε β → Prog Row ε Site Call α} {R R' : Rest Row Env} {r : Except ε α} (n : Nat)
      {e : ε} (hbody : (body.run n R.db).result = .error e) (h : Leads (k (.error e)) R r R') :
      Leads (.tx i s body k) R r R'
  | refused {β : Type} {i : Isolation} {s : Site} {body : Tx Row ε β}
      {k : Except ε β → Prog Row ε Site Call α} {R R' : Rest Row Env} {r : Except ε α}
      (e : DbError) (h : Leads (k (.error (raise e))) R r R') : Leads (.tx i s body k) R r R'

end FastRep.Txn
