/-
What a program promises of its transactions alone.

A contract asks something of every commit, entry, call and result. Where
the promise is about commits only, no walk along the program is needed: it
is enough that every transaction keeps it by itself, wherever in the
program it stands (`Prog.Transacts`), and the promise then holds of every
commit of a run (`Shared.Keeps`). Such a promise can be added to a contract
that is already proved.

What the promise may not do is count on what the program read before the
transaction, or on its request: only the body is at hand. Bookkeeping is
the usual case, where a transaction moves two rows together or none.
-/
import FastRep.Txn.Contract
import FastRep.Txn.Proofs.Serial

namespace FastRep.Txn

variable {Row Key Index ε Site Call Choice Env Req Res α : Type}
  [DecidableEq Key] [DecidableEq Index] [Schema Row Key Index]
  [Services Call Choice Env]

/-- Every transaction of the program, on any path, is like this. -/
inductive Prog.Transacts (P : ∀ β : Type, Isolation → Site → Tx Row ε β → Prop) :
    Prog Row ε Site Call α → Prop
  | pure {a : α} : Transacts P (.pure a)
  | throw {e : ε} : Transacts P (.throw e)
  | now {k : Nat → Prog Row ε Site Call α} (h : ∀ n, Transacts P (k n)) :
      Transacts P (.now k)
  | uuid {k : Nat → Prog Row ε Site Call α} (h : ∀ n, Transacts P (k n)) :
      Transacts P (.uuid k)
  | enter {s : Site} {k : Prog Row ε Site Call α} (h : Transacts P k) :
      Transacts P (.enter s k)
  | call {x : Call} {k : Services.Answer x → Prog Row ε Site Call α}
      (h : ∀ a, Transacts P (k a)) : Transacts P (.call x k)
  | tx {β : Type} {i : Isolation} {s : Site} {body : Tx Row ε β}
      {k : Except ε β → Prog Row ε Site Call α} (hbody : P β i s body)
      (h : ∀ r, Transacts P (k r)) : Transacts P (.tx i s body k)

/-- A promise about commits: the thread, its site, the writes, and the state
they are committed to. -/
abbrev Promise (Row ε Site Call Req Res : Type) {Key Index Choice Env : Type}
    [Schema Row Key Index] [Services Call Choice Env] :=
  Tid → Site → List (Write Row Key) → Shared Row ε Site Call Req Res → Prop

variable [DbErrors ε] (F : Promise Row ε Site Call Req Res)

/-- The contract that promises this of every commit, and nothing else. -/
def App.promising (app : App Row ε Site Call Req Res)
    (start : Shared Row ε Site Call Req Res) : Contract Row ε Site Call Req Res where
  start
  arrives := fun q sc => app.ready q sc = true
  commits := F
  enters := fun _ _ _ => True
  calls := fun _ _ _ _ => True
  finishes := fun _ _ _ => True

/-- The transaction keeps the promise of the contract, whoever runs it. -/
def Contract.Honours (C : Contract Row ε Site Call Req Res) (β : Type) :
    Isolation → Site → Tx Row ε β → Prop
  | .readCommitted, s, body => ∀ t S, Runs C S →
      TxSafe C t s (fun _ ws S' => C.commits t s ws S') body [] S
  | .serializable, s, body => ∀ t S, Runs C S →
      TxEnds S.clock S.db (fun _ ws => C.commits t s ws S) body []

/-- Every commit of the run kept the promise. -/
def Shared.Keeps (S : Shared Row ε Site Call Req Res) : Prop :=
  ∀ newer e older s ws, S.trace = newer ++ e :: older → e.event = .commit s ws →
    ∃ S₀ : Shared Row ε Site Call Req Res,
      S₀.toScene = e.before ∧ S₀.trace = older ∧ F e.tid s ws S₀

end FastRep.Txn
