/-
Rely and guarantee for the transaction machine: what a thread promises
about its own steps, what it may count on from the others, and when a
program keeps its promise.

# The shape of an argument

A `Contract` says what every commit, function entry, outside call and
result of a thread has to satisfy at the moment it happens. `Move` is a
step of one thread as the others see it: the change of the shared state,
with the promise of the contract attached. A thread between two of its
own steps sees the moves of the others (`Rely`); inside a transaction it
also made statements of its own (`Within`).

`TxSafe` and `ProgSafe` walk a program and ask at each node that the
promise holds in every state the thread may find there (`Sees`). A run of
the machine in which every request is safe is then a sequence of moves
(`Runs`), and an invariant of the program is an induction over moves: it
needs the promises, never the programs.

Locks enter here only through `Move.committed` and `Move.ran`: a commit
changes no row, and claims no unique entry, that another thread has
locked against it.
-/
import FastRep.Txn.Machine
import Mathlib.Logic.Relation

namespace FastRep.Txn

open Relation (ReflTransGen)

variable {Row Key Index ε Site Call Choice Env Req Res : Type}
  [DecidableEq Key] [DecidableEq Index] [Schema Row Key Index]
  [Services Call Choice Env] [DbErrors ε]

-- =========================================================== contracts

/-- What the threads of a run promise each other. -/
structure Contract (Row ε Site Call Req Res : Type) {Key Index Choice Env : Type}
    [Schema Row Key Index] [Services Call Choice Env] where
  /-- The state the run starts in. -/
  start : Shared Row ε Site Call Req Res
  /-- When a request may arrive. -/
  arrives : Req → Scene Row Site Req Env → Prop
  commits : Tid → Site → List (Write Row Key) →
    Shared Row ε Site Call Req Res → Prop
  enters : Tid → Site → Shared Row ε Site Call Req Res → Prop
  calls : Tid → Call → Choice → Shared Row ε Site Call Req Res → Prop
  finishes : Tid → Except ε Res → Shared Row ε Site Call Req Res → Prop

/-- A thread that has taken no step. -/
def Shared.Fresh (S : Shared Row ε Site Call Req Res) (t : Tid) : Prop :=
  ∀ e ∈ S.trace, e.tid ≠ t

/-- A thread is inside a transaction of the site, with so many statements
behind it. -/
def Scene.OpenAt (sc : Scene Row Site Req Env) (t : Tid) (s : Site) (n : Nat) :
    Prop :=
  ∃ o ∈ sc.opens, o.tid = t ∧ o.site = s ∧ n ≤ o.done

/-- The UUIDs a thread drew, last first. -/
def Shared.ids (S : Shared Row ε Site Call Req Res) (t : Tid) : List Nat :=
  S.trace.filterMap fun e => match e.event with
    | .uuid n => if e.tid = t then some n else none
    | _ => none

/-- The sites of a thread's committed transactions, last first. -/
def Shared.committedBy (S : Shared Row ε Site Call Req Res) (t : Tid) : List Site :=
  S.trace.filterMap fun e => match e.event with
    | .commit s _ => if e.tid = t then some s else none
    | _ => none

/-- The functions a thread entered, last first. -/
def Shared.enteredBy (S : Shared Row ε Site Call Req Res) (t : Tid) : List Site :=
  S.trace.filterMap fun e => match e.event with
    | .enter s => if e.tid = t then some s else none
    | _ => none

/-- The requests a thread was spawned for. -/
def Shared.asked (S : Shared Row ε Site Call Req Res) (t : Tid) : List Req :=
  S.trace.filterMap fun e => match e.event with
    | .spawn q => if e.tid = t then some q else none
    | _ => none

section Moves

variable (C : Contract Row ε Site Call Req Res)

/-- One step of a thread, as the other threads see it. -/
inductive Move : Tid → Shared Row ε Site Call Req Res →
    Shared Row ε Site Call Req Res → Prop
  | spawned {t S} (q : Req) : t ≠ outside → C.arrives q S.toScene →
      S.Fresh t → Move t S (S.spawned t q)
  | began {t S} (s : Site) : Move t S (S.begin t s)
  | ran {t S} (s : Site) (ls : List (Lock Key Index)) :
      (∀ l ∈ ls, S.free t l = true) → Move t S (S.ran t s ls)
  | committed {t S} (s : Site) (ws : List (Write Row Key)) :
      (∀ w ∈ ws, ∀ l ∈ w.locks, S.free t l = true) → C.commits t s ws S →
      Move t S (S.commit t s ws)
  | rolledBack {t S} (s : Site) (e : ε) : Move t S (S.rollback t s e)
  | answered {t S} (x : Call) (c : Choice) (a : Services.Answer x) (env : Env) :
      Services.perform x c S.clock S.env = some (a, env) → C.calls t x c S →
      Move t S (S.answered t x c env)
  | drawn {t S} : Move t S (S.drawn t)
  | entered {t S} (s : Site) : C.enters t s S → Move t S (S.log t (.enter s))
  | finished {t S} (r : Except ε Res) : C.finishes t r S →
      Move t S (S.finished t r)
  | ticked {S} (n : Nat) : Move outside S { S with clock := S.clock + n }
  | ambient {S} (c : Choice) (env : Env) :
      @Services.ambient Call Choice Env _ c S.clock S.env = some env →
      Move outside S { S.log outside (.ambient c) with env := env }

/-- The states moves lead to. -/
def Runs (S : Shared Row ε Site Call Req Res) : Prop :=
  ReflTransGen (fun S S' => ∃ j, Move C j S S') C.start S

/-- What happens between two steps of a thread: moves of the others. -/
def Rely (t : Tid) :
    Shared Row ε Site Call Req Res → Shared Row ε Site Call Req Res → Prop :=
  ReflTransGen fun S S' => ∃ j, j ≠ t ∧ Move C j S S'

/-- What happens while a thread is in one transaction: moves of the others
and statements of its own. -/
def Within (t : Tid) (s : Site) :
    Shared Row ε Site Call Req Res → Shared Row ε Site Call Req Res → Prop :=
  ReflTransGen fun S S' => (∃ j, j ≠ t ∧ Move C j S S') ∨ S' = S.begin t s ∨
    ∃ ls : List (Lock Key Index), (∀ l ∈ ls, S.free t l = true) ∧
      S' = S.ran t s ls

/-- A state a thread may find at its next step, when it left the shared
state as given. -/
structure Sees (t : Tid) (S S' : Shared Row ε Site Call Req Res) : Prop where
  rely : Rely C t S S'
  runs : Runs C S'

end Moves

-- ============================================================== safety

/-- A body run on the rows of one moment leaves a value and its writes,
however long it waits before its late readings of the clock. -/
def Tx.Leaves {β : Type} (body : Tx Row ε β) (n : Nat) (d : Db Row) (b : β)
    (ws : List (Write Row Key)) : Prop :=
  ∃ ms, ((body.waiting ms).run n d).result = .ok b ∧
    ((body.waiting ms).run n d).writes = ws

section Safety

variable (C : Contract Row ε Site Call Req Res) (t : Tid)

/-- A transaction body, part way through with its pending writes, ends in
`Q` whenever it gets to commit. -/
def TxSafe {β : Type} (s : Site)
    (Q : β → List (Write Row Key) → Shared Row ε Site Call Req Res → Prop) :
    Tx Row ε β → List (Write Row Key) → Shared Row ε Site Call Req Res → Prop
  | .pure b, ws, S => ∀ S', Sees C t S S' → Q b ws S'
  | .throw _, _, _ => True
  | .now k, ws, S => ∀ S', Sees C t S S' → TxSafe s Q (k S'.clock) ws S'
  | .later since k, ws, S => ∀ S', Sees C t S S' → TxSafe s Q (k (max S'.clock since)) ws S'
  | .stmt f k, ws, S => ∀ S', Sees C t S S' → ∀ b ws',
      (f (applyAll ws S'.db)).answer = .ok (b, ws') →
      (∀ l ∈ (f (applyAll ws S'.db)).waits, S'.free t l = true) →
      (∀ l ∈ ws'.flatMap Write.locks, S'.free t l = true) →
      TxSafe s Q (k b) (ws ++ ws') (S'.ran t s (ws'.flatMap Write.locks))

/-- A program keeps the contract, returns only in `Q` and throws only in
`E`. -/
def ProgSafe {α : Type} (Q : α → Shared Row ε Site Call Req Res → Prop)
    (E : ε → Shared Row ε Site Call Req Res → Prop) :
    Prog Row ε Site Call α → Shared Row ε Site Call Req Res → Prop
  | .pure a, S => ∀ S', Sees C t S S' → Q a S'
  | .throw e, S => ∀ S', Sees C t S S' → E e S'
  | .now k, S => ∀ S', Sees C t S S' → ProgSafe Q E (k S'.clock) S'
  | .uuid k, S => ∀ S', Sees C t S S' →
      ProgSafe Q E (k S'.nextId) (S'.drawn t)
  | .enter s k, S => ∀ S', Sees C t S S' →
      C.enters t s S' ∧ ProgSafe Q E k (S'.log t (.enter s))
  | .call x k, S => ∀ S', Sees C t S S' → ∀ c a env,
      Services.perform x c S'.clock S'.env = some (a, env) →
      C.calls t x c S' ∧ ProgSafe Q E (k a) (S'.answered t x c env)
  | .tx .readCommitted s body k, S => ∀ S', Sees C t S S' →
      TxSafe C t s (fun b ws S'' => C.commits t s ws S'' ∧
        ProgSafe Q E (k (.ok b)) (S''.commit t s ws)) body []
        (S'.begin t s) ∧
      ∀ e S'', Within C t s S' S'' →
        ProgSafe Q E (k (.error e)) (S''.rollback t s e)
  | .tx .serializable s body k, S => ∀ S', Sees C t S S' →
      (∀ b ws, body.Leaves S'.clock S'.db b ws →
        C.commits t s ws S' ∧ ProgSafe Q E (k (.ok b)) (S'.commit t s ws)) ∧
      ∀ e, ProgSafe Q E (k (.error e)) (S'.rollback t s e)

end Safety

/-- The program of every request keeps the contract. -/
def App.Safe (app : App Row ε Site Call Req Res)
    (C : Contract Row ε Site Call Req Res) : Prop :=
  ∀ t q S, t ≠ outside → app.ready q S.toScene = true → Runs C S →
    S.Fresh t → C.arrives q S.toScene ∧
    ProgSafe C t (fun a S' => C.finishes t (.ok a) S')
      (fun e S' => C.finishes t (.error e) S') (app.main q) (S.spawned t q)

end FastRep.Txn
