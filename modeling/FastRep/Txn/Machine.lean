/-
The transaction machine: any number of requests over one database, one
step at a time.

# What a step is

A thread runs one request. Outside a transaction its step reads the clock,
draws a UUID, enters a function, calls a service, opens a READ COMMITTED
transaction, or runs a whole SERIALIZABLE transaction at once, on the rows
of one moment, its snapshot; where the body reads the clock late
(`Tx.later`), any time may have passed since (`Action.stepLate`). Inside a
READ COMMITTED transaction its step is one statement, and the last step
commits. A statement runs on the committed rows overlaid with the
transaction's own writes, and only while the locks it needs are free; the
locks of its writes are kept until the transaction ends. Any database
call may fail instead (`Action.abort`), which rolls its transaction back.

# What is recorded

`Shared` is everything but the programs: the committed database, the
outside world, the clock, the lock table, the open transactions, the
requests in progress. `Shared.trace` is ghost state: it logs every step
together with the scene it was taken in, newest first, so a property of a
run (which commits happened, what was committed when a statement ran) is
a property of the state.
-/
import FastRep.Txn.Program

namespace FastRep.Txn

-- ======================================================== shared state

abbrev Tid := Nat

/-- The thread number the outside world acts under; no request has it. -/
def outside : Tid := 0

/-- An open READ COMMITTED transaction and how many statements it ran. -/
structure Open (Site : Type) where
  tid : Tid
  site : Site
  done : Nat
  deriving DecidableEq

/-- What all threads see at one moment. -/
structure Scene (Row Site Req Env : Type) {Key Index : Type}
    [Schema Row Key Index] where
  db : Db Row
  env : Env
  clock : Nat
  nextId : Nat
  locks : List (Tid × Lock Key Index)
  opens : List (Open Site)
  live : List (Tid × Req)

/-- What a step did. -/
inductive Event (Row ε Site Call Req Res : Type) {Key Index Choice Env : Type}
    [Schema Row Key Index] [Services Call Choice Env] where
  | spawn (q : Req)
  | begin (s : Site)
  | statement (s : Site)
  | commit (s : Site) (ws : List (Write Row Key))
  | rollback (s : Site) (e : ε)
  | call (x : Call) (c : Choice)
  | uuid (n : Nat)
  | enter (s : Site)
  | finish (r : Except ε Res)
  | ambient (c : Choice)

/-- A step of the run, with the scene it was taken in. -/
structure Entry (Row ε Site Call Req Res : Type) {Key Index Choice Env : Type}
    [Schema Row Key Index] [Services Call Choice Env] where
  tid : Tid
  event : Event Row ε Site Call Req Res
  before : Scene Row Site Req Env

structure Shared (Row ε Site Call Req Res : Type) {Key Index Choice Env : Type}
    [Schema Row Key Index] [Services Call Choice Env]
    extends Scene Row Site Req Env where
  trace : List (Entry Row ε Site Call Req Res)

variable {Row Key Index ε Site Call Choice Env Req Res : Type}
  [DecidableEq Key] [DecidableEq Index] [Schema Row Key Index]
  [Services Call Choice Env] [DbErrors ε]

section Updates

variable (t : Tid) (S : Shared Row ε Site Call Req Res)

/-- Log a step. -/
def Shared.log (ev : Event Row ε Site Call Req Res) :
    Shared Row ε Site Call Req Res :=
  { S with trace := ⟨t, ev, S.toScene⟩ :: S.trace }

/-- A lock no other thread holds against `t`. -/
def Shared.free (l : Lock Key Index) : Bool :=
  S.locks.all fun h => h.1 = t || !h.2.conflicts l

def Shared.begin (s : Site) : Shared Row ε Site Call Req Res :=
  { S.log t (.begin s) with opens := ⟨t, s, 0⟩ :: S.opens }

/-- A statement ran and took locks. -/
def Shared.ran (s : Site) (ls : List (Lock Key Index)) :
    Shared Row ε Site Call Req Res :=
  { S.log t (.statement s) with
    locks := ls.map (fun l => (t, l)) ++ S.locks
    opens := S.opens.map fun o =>
      if o.tid = t then { o with done := o.done + 1 } else o }

def Shared.commit (s : Site) (ws : List (Write Row Key)) :
    Shared Row ε Site Call Req Res :=
  { S.log t (.commit s ws) with
    db := applyAll ws S.db
    locks := S.locks.filter fun h => h.1 ≠ t
    opens := S.opens.filter fun o => o.tid ≠ t }

def Shared.rollback (s : Site) (e : ε) : Shared Row ε Site Call Req Res :=
  { S.log t (.rollback s e) with
    locks := S.locks.filter fun h => h.1 ≠ t
    opens := S.opens.filter fun o => o.tid ≠ t }

def Shared.answered (x : Call) (c : Choice) (env : Env) :
    Shared Row ε Site Call Req Res :=
  { S.log t (.call x c) with env := env }

def Shared.drawn : Shared Row ε Site Call Req Res :=
  { S.log t (.uuid S.nextId) with nextId := S.nextId + 1 }

def Shared.spawned (q : Req) : Shared Row ε Site Call Req Res :=
  { S.log t (.spawn q) with live := (t, q) :: S.live }

def Shared.finished (r : Except ε Res) : Shared Row ε Site Call Req Res :=
  { S.log t (.finish r) with live := S.live.filter fun x => x.1 ≠ t }

end Updates

-- ========================================== serializable transactions

/-- A transaction body run at one moment: its result, its writes, and the
locks it has to find free. -/
structure Outcome (Row ε : Type) {Key Index : Type} [Schema Row Key Index]
    (β : Type) where
  result : Except ε β
  writes : List (Write Row Key)
  needs : List (Lock Key Index)

def Tx.run {β : Type} : Tx Row ε β → Nat → Db Row → Outcome Row ε β
  | .pure b, _, _ => ⟨.ok b, [], []⟩
  | .throw e, _, _ => ⟨.error e, [], []⟩
  | .now k, n, d => (k n).run n d
  | .later since k, n, d => (k (max n since)).run n d
  | .stmt s k, n, d =>
    match (s d).answer with
    | .error e => ⟨.error e, [], (s d).waits⟩
    | .ok (b, ws) =>
      let rest := (k b).run n (applyAll ws d)
      ⟨rest.result, ws ++ rest.writes,
        (s d).waits ++ ws.flatMap Write.locks ++ rest.needs⟩

/-- The body that waits before each of its late readings of the clock, as
long as listed. -/
def Tx.waiting {β : Type} : Tx Row ε β → List Nat → Tx Row ε β
  | .pure b, _ => .pure b
  | .throw e, _ => .throw e
  | .now k, ms => .now fun n => (k n).waiting ms
  | .later since k, ms =>
      .now fun n => (k (max n since + ms.headD 0)).waiting ms.tail
  | .stmt s k, ms => .stmt s fun b => (k b).waiting ms

-- ============================================================= threads

inductive Thread (Row ε Site Call Res : Type) {Key Index Choice Env : Type}
    [Schema Row Key Index] [Services Call Choice Env] : Type 1 where
  | idle
  | running (p : Prog Row ε Site Call Res)
  | inTx {β : Type} (s : Site) (body : Tx Row ε β) (ws : List (Write Row Key))
      (k : Except ε β → Prog Row ε Site Call Res)
  | finished (r : Except ε Res)

/-- The requests a program serves, the program of each, and when one may
arrive. -/
structure App (Row ε Site Call Req Res : Type) {Key Index Choice Env : Type}
    [Schema Row Key Index] [Services Call Choice Env] where
  main : Req → Prog Row ε Site Call Res
  ready : Req → Scene Row Site Req Env → Bool

structure World (Row ε Site Call Req Res : Type) {Key Index Choice Env : Type}
    [Schema Row Key Index] [Services Call Choice Env] where
  shared : Shared Row ε Site Call Req Res
  threads : Tid → Thread Row ε Site Call Res

def World.set (w : World Row ε Site Call Req Res) (t : Tid)
    (th : Thread Row ε Site Call Res) (S : Shared Row ε Site Call Req Res) :
    World Row ε Site Call Req Res where
  shared := S
  threads := fun i => if i = t then th else w.threads i

/-- A choice of the scheduler, the services or the outside world. -/
inductive Action (Req Choice : Type) where
  | spawn (t : Tid) (q : Req)
  | step (t : Tid)
  /-- A SERIALIZABLE transaction whose late readings of the clock come so
  many milliseconds later, one after the other. -/
  | stepLate (t : Tid) (ms : List Nat)
  | answer (t : Tid) (c : Choice)
  | abort (t : Tid) (e : DbError)
  | tick (n : Nat)
  | ambient (c : Choice)

/-- Run a SERIALIZABLE transaction of a thread. -/
def World.atOnce {β : Type} (t : Tid) (s : Site) (body : Tx Row ε β)
    (k : Except ε β → Prog Row ε Site Call Res) (w : World Row ε Site Call Req Res) :
    Option (World Row ε Site Call Req Res) :=
  let o := body.run w.shared.clock w.shared.db
  if o.needs.all (w.shared.free t) then
    match o.result with
    | .ok b =>
        some (w.set t (.running (k (.ok b))) (w.shared.commit t s o.writes))
    | .error e =>
        some (w.set t (.running (k (.error e))) (w.shared.rollback t s e))
  else none

/-- The next step of a thread that needs no answer from outside. -/
def World.step (t : Tid) (w : World Row ε Site Call Req Res) :
    Option (World Row ε Site Call Req Res) :=
  match w.threads t with
  | .idle => none
  | .finished _ => none
  | .running (.pure a) =>
      some (w.set t (.finished (.ok a)) (w.shared.finished t (.ok a)))
  | .running (.throw e) =>
      some (w.set t (.finished (.error e)) (w.shared.finished t (.error e)))
  | .running (.now k) => some (w.set t (.running (k w.shared.clock)) w.shared)
  | .running (.uuid k) =>
      some (w.set t (.running (k w.shared.nextId)) (w.shared.drawn t))
  | .running (.enter s k) =>
      some (w.set t (.running k) (w.shared.log t (.enter s)))
  | .running (.call _ _) => none
  | .running (.tx .readCommitted s body k) =>
      some (w.set t (.inTx s body [] k) (w.shared.begin t s))
  | .running (.tx .serializable s body k) => w.atOnce t s body k
  | .inTx s (.pure b) ws k =>
      some (w.set t (.running (k (.ok b))) (w.shared.commit t s ws))
  | .inTx s (.throw e) _ k =>
      some (w.set t (.running (k (.error e))) (w.shared.rollback t s e))
  | .inTx s (.now b) ws k => some (w.set t (.inTx s (b w.shared.clock) ws k) w.shared)
  | .inTx s (.later since b) ws k =>
      some (w.set t (.inTx s (b (max w.shared.clock since)) ws k) w.shared)
  | .inTx s (.stmt f b) ws k =>
      let r := f (applyAll ws w.shared.db)
      match r.answer with
      | .error e =>
          if r.waits.all (w.shared.free t) then
            some (w.set t (.running (k (.error e))) (w.shared.rollback t s e))
          else none
      | .ok (a, ws') =>
          if (r.waits ++ ws'.flatMap Write.locks).all (w.shared.free t) then
            some (w.set t (.inTx s (b a) (ws ++ ws') k)
              (w.shared.ran t s (ws'.flatMap Write.locks)))
          else none

/-- A SERIALIZABLE transaction in which time passes: it runs on the rows of
one moment, and reads the clock later. -/
def World.stepLate (t : Tid) (ms : List Nat) (w : World Row ε Site Call Req Res) :
    Option (World Row ε Site Call Req Res) :=
  match w.threads t with
  | .running (.tx .serializable s body k) => w.atOnce t s (body.waiting ms) k
  | _ => none

/-- A service answers the call a thread waits for. -/
def World.answer (t : Tid) (c : Choice) (w : World Row ε Site Call Req Res) :
    Option (World Row ε Site Call Req Res) :=
  match w.threads t with
  | .running (.call x k) =>
      match Services.perform x c w.shared.clock w.shared.env with
      | some (a, env) =>
          some (w.set t (.running (k a)) (w.shared.answered t x c env))
      | none => none
  | _ => none

/-- A database call of a thread fails: its transaction is rolled back. -/
def World.abort (t : Tid) (e : DbError) (w : World Row ε Site Call Req Res) :
    Option (World Row ε Site Call Req Res) :=
  match w.threads t with
  | .running (.tx _ s _ k) =>
      some (w.set t (.running (k (.error (raise e))))
        (w.shared.rollback t s (raise e)))
  | .inTx s _ _ k =>
      some (w.set t (.running (k (.error (raise e))))
        (w.shared.rollback t s (raise e)))
  | _ => none

/-- The machine: the state an action leads to, or `none` where the action
is not possible. -/
def World.apply (app : App Row ε Site Call Req Res)
    (a : Action Req Choice) (w : World Row ε Site Call Req Res) :
    Option (World Row ε Site Call Req Res) :=
  match a with
  | .spawn t q =>
      match w.threads t with
      | .idle =>
          if t ≠ outside && app.ready q w.shared.toScene then
            some (w.set t (.running (app.main q)) (w.shared.spawned t q))
          else none
      | _ => none
  | .step t => w.step t
  | .stepLate t ms => w.stepLate t ms
  | .answer t c => w.answer t c
  | .abort t e => w.abort t e
  | .tick n =>
      some { w with shared := { w.shared with clock := w.shared.clock + n } }
  | .ambient c =>
      match @Services.ambient Call Choice Env _ c w.shared.clock w.shared.env with
      | some env =>
          some { w with
            shared := { w.shared.log outside (.ambient c) with env := env } }
      | none => none

/-- The state before any request: no thread, no lock, an empty trace. -/
def World.init (db : Db Row) (env : Env) (clock nextId : Nat) :
    World Row ε Site Call Req Res where
  shared :=
    { db, env, clock, nextId, locks := [], opens := [], live := [],
      trace := [] }
  threads := fun _ => .idle

/-- Run a list of actions, failing on the first that is not possible. -/
def World.runAll (app : App Row ε Site Call Req Res)
    (w : World Row ε Site Call Req Res) :
    List (Action Req Choice) → Option (World Row ε Site Call Req Res)
  | [] => some w
  | a :: rest =>
      match w.apply app a with
      | some w' => w'.runAll app rest
      | none => none

/-- The states some sequence of actions leads to. -/
inductive Reachable (app : App Row ε Site Call Req Res)
    (w₀ : World Row ε Site Call Req Res) :
    World Row ε Site Call Req Res → Prop
  | init : Reachable app w₀ w₀
  | step {w w' : World Row ε Site Call Req Res} (a : Action Req Choice) :
      Reachable app w₀ w → w.apply app a = some w' → Reachable app w₀ w'

/-- What a list of actions runs to is reachable. -/
theorem Reachable.runAll {app : App Row ε Site Call Req Res}
    {w₀ w w' : World Row ε Site Call Req Res} (h : Reachable app w₀ w)
    (as : List (Action Req Choice)) (hrun : w.runAll app as = some w') :
    Reachable app w₀ w' := by
  induction as generalizing w with
  | nil =>
      cases hrun
      exact h
  | cons a as ih =>
      simp only [World.runAll] at hrun
      split at hrun
      next w₁ hw₁ => exact ih (h.step a hw₁) hrun
      next => cases hrun

end FastRep.Txn
