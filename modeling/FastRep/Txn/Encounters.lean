/-
The runs of a program that is alone, each with what it encountered.

`Prog.Leads` says where such runs end. `Prog.Meets` also keeps what the
outside made of them on the way: how each call was answered, and which
transactions were refused (`Encounter`). A statement about every run can
then say what it asks of the outside: that a service answered truthfully,
that the database refused nothing, that some call succeeded. `Prog.Moves` is
the frame: a relation of states that every commit of the program respects.
-/
import FastRep.Txn.Alone

namespace FastRep.Txn

/-- What the outside made of a step. -/
inductive Encounter (Site Call Choice : Type) where
  | answered (x : Call) (c : Choice)
  | refused (s : Site) (e : DbError)
  deriving DecidableEq

variable {Row Key Index ε Site Call Choice Env α : Type}
  [DecidableEq Key] [Schema Row Key Index] [Services Call Choice Env] [DbErrors ε]

/-- A program meets the outside, ends in a result and takes one state to
another. -/
inductive Prog.Meets : Prog Row ε Site Call α → Rest Row Env → List (Encounter Site Call Choice) →
    Except ε α → Rest Row Env → Prop
  | pure {a : α} {R : Rest Row Env} : Meets (.pure a) R [] (.ok a) R
  | throw {e : ε} {R : Rest Row Env} : Meets (.throw e) R [] (.error e) R
  | now {k : Nat → Prog Row ε Site Call α} {R R' : Rest Row Env}
      {l : List (Encounter Site Call Choice)} {r : Except ε α} (n : Nat)
      (h : Meets (k n) R l r R') : Meets (.now k) R l r R'
  | uuid {k : Nat → Prog Row ε Site Call α} {R R' : Rest Row Env}
      {l : List (Encounter Site Call Choice)} {r : Except ε α}
      (h : Meets (k R.nextId) { R with nextId := R.nextId + 1 } l r R') : Meets (.uuid k) R l r R'
  | enter {s : Site} {k : Prog Row ε Site Call α} {R R' : Rest Row Env}
      {l : List (Encounter Site Call Choice)} {r : Except ε α} (h : Meets k R l r R') :
      Meets (.enter s k) R l r R'
  | call {x : Call} {k : Services.Answer x → Prog Row ε Site Call α} {R R' : Rest Row Env}
      {l : List (Encounter Site Call Choice)} {r : Except ε α} (c : Choice) (n : Nat)
      {a : Services.Answer x} {env : Env}
      (hperform : Services.perform x c n R.env = some (a, env))
      (h : Meets (k a) { R with env } l r R') : Meets (.call x k) R (.answered x c :: l) r R'
  | commits {β : Type} {i : Isolation} {s : Site} {body : Tx Row ε β}
      {k : Except ε β → Prog Row ε Site Call α} {R R' : Rest Row Env}
      {l : List (Encounter Site Call Choice)} {r : Except ε α} (n : Nat) {b : β}
      (hbody : (body.run n R.db).result = .ok b)
      (h : Meets (k (.ok b)) { R with db := applyAll (body.run n R.db).writes R.db } l r R') :
      Meets (.tx i s body k) R l r R'
  | fails {β : Type} {i : Isolation} {s : Site} {body : Tx Row ε β}
      {k : Except ε β → Prog Row ε Site Call α} {R R' : Rest Row Env}
      {l : List (Encounter Site Call Choice)} {r : Except ε α} (n : Nat) {e : ε}
      (hbody : (body.run n R.db).result = .error e) (h : Meets (k (.error e)) R l r R') :
      Meets (.tx i s body k) R l r R'
  | refused {β : Type} {i : Isolation} {s : Site} {body : Tx Row ε β}
      {k : Except ε β → Prog Row ε Site Call α} {R R' : Rest Row Env}
      {l : List (Encounter Site Call Choice)} {r : Except ε α} (e : DbError)
      (h : Meets (k (.error (raise e))) R l r R') :
      Meets (.tx i s body k) R (.refused s e :: l) r R'

/-- Whatever the outside makes of a run, it only moves the state so. -/
def Prog.Moves (M : Rest Row Env → Rest Row Env → Prop) (p : Prog Row ε Site Call α) : Prop :=
  ∀ (R : Rest Row Env) (l : List (Encounter Site Call Choice)) r R', p.Meets R l r R' → M R R'

end FastRep.Txn
