/-
Programs of the transaction machine: the body of a transaction (`Tx`) and
the request around it (`Prog`).

Both are trees of the operations still to run, so a suspended call is a
value and an interleaving is a choice of which tree takes its next step.
`Tx` knows statements and the clock. A statement that fails ends the
body, since no caller catches an error inside a transaction callback.
`Prog` adds what a request does between its transactions: drawing a
UUID, calling an outside service, and catching errors.

# Statements under READ COMMITTED

A statement is a function of the view it runs on: the committed rows
overlaid with the writes of its own transaction. Its reply names the
locks it must find free (`waits`) and either fails or yields a value and
the writes it makes. The machine runs a statement at a moment when every
lock it waits for, and every lock its writes take, is free, which is
PostgreSQL's rule that a blocked statement re-evaluates its condition on
the newest row version once the blocker has ended.

An update or delete of several rows first reads which rows match
(`updateMany`, `deleteMany`) and then visits exactly these
(`updateEach`, `deleteEach`): a row that starts to match after the
statement's snapshot is not visited, and a visited row that no longer
matches is skipped.
-/
import FastRep.Txn.Store

namespace FastRep.Txn

-- ============================================================== errors

/-- What the database client reports, by the Prisma error it raises. -/
inductive DbError where
  /-- P2002 -/
  | uniqueConstraint
  /-- P2003 -/
  | foreignKeyConstraint
  /-- a `CHECK` constraint -/
  | checkConstraint
  /-- P2034 -/
  | writeConflict
  /-- P2025 -/
  | recordNotFound
  /-- connection loss, timeout, deadlock victim -/
  | unavailable
  deriving DecidableEq, Repr

/-- An error type of a program: it has the client's errors in it. -/
class DbErrors (ε : Type) where
  raise : DbError → ε

export DbErrors (raise)

-- ========================================================= transactions

/-- Reply of a statement on a view: the locks it has to find free, and its
error or its value and writes. -/
structure Reply (Row ε : Type) {Key Index : Type} [Schema Row Key Index]
    (β : Type) where
  waits : List (Lock Key Index)
  answer : Except ε (β × List (Write Row Key))

/-- The body of a transaction. -/
inductive Tx (Row ε : Type) {Key Index : Type} [Schema Row Key Index]
    (α : Type) : Type 1 where
  | pure (a : α)
  | throw (e : ε)
  | now (k : Nat → Tx Row ε α)
  /-- The clock at a later moment of the transaction, not before a time
  that was read already. -/
  | later (since : Nat) (k : Nat → Tx Row ε α)
  | stmt {β : Type} (s : Db Row → Reply Row ε β) (k : β → Tx Row ε α)

section Body

variable {Row Key Index ε : Type} [DecidableEq Key] [DecidableEq Index]
  [Schema Row Key Index] [DbErrors ε] {α β : Type}

def Tx.bind : Tx Row ε α → (α → Tx Row ε β) → Tx Row ε β
  | .pure a, f => f a
  | .throw e, _ => .throw e
  | .now k, f => .now fun n => (k n).bind f
  | .later since k, f => .later since fun n => (k n).bind f
  | .stmt s k, f => .stmt s fun b => (k b).bind f

instance : Monad (Tx Row ε) where
  pure := .pure
  bind := .bind

/-- `new Date()`. -/
def Tx.clock : Tx Row ε Nat := .now .pure

/-- `new Date()` in the midst of a transaction, after the reading `since`. -/
def Tx.lateClock (since : Nat) : Tx Row ε Nat := .later since .pure

/-- A query. -/
def select (f : Db Row → α) : Tx Row ε α :=
  .stmt (fun v => ⟨[], .ok (f v, [])⟩) .pure

/-- A query that must find a row (`findUniqueOrThrow`). -/
def selectOrThrow (f : Db Row → Option α) : Tx Row ε α :=
  .stmt (fun v => ⟨[], match f v with
    | some a => .ok (a, [])
    | none => .error (raise .recordNotFound)⟩) .pure

/-- The other rows a new version collides with: they carry its key or one
of its unique entries. -/
def Db.clashes (r : Row) (v : Db Row) : List Row :=
  v.rows.filter fun x =>
    key x ≠ key r && (Schema.indexes x).any (· ∈ Schema.indexes r)

/-- Whether a row version violates a constraint of its table on the view.
A collision with a row another transaction is changing waits for that
transaction, so the check lists the rows it depends on. -/
def Db.violation (r : Row) (v : Db Row) : Option DbError :=
  if v.clashes r ≠ [] then some .uniqueConstraint
  else if !Schema.check r then some .checkConstraint
  else if (Schema.references r).any (fun ref => v.find? ref.1 |>.isNone) then
    some .foreignKeyConstraint
  else none

/-- Insert a row. -/
def insertRow (r : Row) : Tx Row ε Unit :=
  .stmt (fun v =>
    ⟨(v.clashes r).map (fun x => .update (key x))
        ++ (v.find? (key r)).toList.map (fun x => .update (key x)),
      if (v.find? (key r)).isSome then .error (raise .uniqueConstraint)
      else match v.violation r with
        | some e => .error (raise e)
        | none => .ok ((), [.insert r])⟩) .pure

/-- Change the row under a key where it satisfies the condition; the
number of rows changed. -/
def updateRow (k : Key) (p : Row → Bool) (f : Row → Row) : Tx Row ε Nat :=
  .stmt (fun v => match (v.find? k).filter p with
    | none => ⟨[], .ok (0, [])⟩
    | some r =>
      ⟨(v.clashes (f r)).map fun x => .update (key x),
        match v.violation (f r) with
        | some e => .error (raise e)
        | none => .ok (1, [.update (f r)])⟩) .pure

/-- Change the row under a key, which must exist (`update`). -/
def updateOrThrow (k : Key) (f : Row → Row) : Tx Row ε Unit :=
  (updateRow k (fun _ => true) f).bind fun count =>
    if count = 1 then .pure () else .throw (raise .recordNotFound)

/-- Change the listed rows that still satisfy the condition. -/
def updateEach (ks : List Key) (p : Row → Bool) (f : Row → Row) :
    Tx Row ε Nat :=
  .stmt (fun v =>
    let found := ks.filterMap v.find?
    let hits := found.filter p
    ⟨found.map (fun r => .update (key r)),
      match (hits.filterMap fun r => v.violation (f r)).head? with
      | some e => .error (raise e)
      | none => .ok (hits.length, hits.map fun r => .update (f r))⟩) .pure

/-- Change every row that satisfies the condition. -/
def updateMany (p : Row → Bool) (f : Row → Row) : Tx Row ε Nat :=
  (select fun v => (v.rows.filter p).map key).bind fun ks =>
    updateEach ks p f

/-- Change the row that satisfies the condition, or insert one where there
is none; the row that results. -/
def upsertRow (p : Row → Bool) (r : Row) (f : Row → Row) : Tx Row ε Row :=
  .stmt (fun v => match v.rows.find? p with
    | some x => ⟨[], .ok (f x, [.update (f x)])⟩
    | none => ⟨(v.clashes r).map (fun x => .update (key x))
          ++ (v.find? (key r)).toList.map (fun x => .update (key x)),
        if (v.find? (key r)).isSome then .error (raise .uniqueConstraint)
        else match v.violation r with
          | some e => .error (raise e)
          | none => .ok (r, [.insert r])⟩) .pure

-- =========================================================== deletions

/-- Rows that a cascade removes together with the listed rows. -/
def Db.dependents (ks : List Key) (d : Db Row) : List Key :=
  (d.rows.filter fun r => key r ∉ ks
    && (Schema.references r).any fun ref =>
      ref.2 = .cascade && ref.1 ∈ ks).map key

/-- The listed rows and everything a chain of cascades of the given depth
removes with them. -/
def Db.doomed (d : Db Row) : Nat → List Key → List Key
  | 0, ks => ks
  | n + 1, ks => d.doomed n (ks ++ d.dependents ks)

/-- The rows a deletion of the listed rows removes. -/
def Db.gone (ks : List Key) (d : Db Row) : List Key :=
  d.doomed d.rows.length ks

/-- A row with its references to removed rows cleared. -/
def unlinkAll (gone : List Key) (r : Row) : Row :=
  gone.foldl (fun r k => Schema.unlink k r) r

/-- The writes of a deletion: removed rows go, and nullable references to
them are cleared. -/
def Db.deletion (ks : List Key) (d : Db Row) : List (Write Row Key) :=
  d.rows.filterMap fun r =>
    if key r ∈ d.gone ks then some (.erase (key r))
    else if (Schema.references r).any fun ref =>
        ref.2 = .setNull && ref.1 ∈ d.gone ks then
      some (.update (unlinkAll (d.gone ks) r))
    else none

/-- Delete the row under a key where it satisfies the condition. -/
def deleteRow (k : Key) (p : Row → Bool) : Tx Row ε Nat :=
  .stmt (fun v => match (v.find? k).filter p with
    | none => ⟨[], .ok (0, [])⟩
    | some _ => ⟨[], .ok (1, v.deletion [k])⟩) .pure

/-- Delete the row under a key, which must exist (`delete`). -/
def deleteOrThrow (k : Key) : Tx Row ε Unit :=
  (deleteRow k fun _ => true).bind fun count =>
    if count = 1 then .pure () else .throw (raise .recordNotFound)

/-- Delete the listed rows that still satisfy the condition. -/
def deleteEach (ks : List Key) (p : Row → Bool) : Tx Row ε Nat :=
  .stmt (fun v =>
    let found := ks.filterMap v.find?
    let hits := found.filter p
    ⟨found.map (fun r => .update (key r)),
      .ok (hits.length, v.deletion (hits.map key))⟩) .pure

/-- Delete every row that satisfies the condition. -/
def deleteMany (p : Row → Bool) : Tx Row ε Nat :=
  (select fun v => (v.rows.filter p).map key).bind fun ks =>
    deleteEach ks p

end Body

-- ============================================================= requests

/-- Services outside the database: their calls, what a call answers, and
what it does to the outside world at a given time. A choice decides among
the outcomes a call can have. -/
class Services (Call : Type) (Choice Env : outParam Type) where
  Answer : Call → Type
  perform : (x : Call) → Choice → Nat → Env → Option (Answer x × Env)
  /-- What the outside world does by itself. -/
  ambient : Choice → Nat → Env → Option Env

inductive Isolation where
  | readCommitted
  | serializable
  deriving DecidableEq, Repr

/-- A request or job: transactions, outside calls and the code between
them. `Site` names the transactions and functions of the program. -/
inductive Prog (Row ε Site Call : Type) {Key Index Choice Env : Type}
    [Schema Row Key Index] [Services Call Choice Env] (α : Type) :
    Type 1 where
  | pure (a : α)
  | throw (e : ε)
  | now (k : Nat → Prog Row ε Site Call α)
  | uuid (k : Nat → Prog Row ε Site Call α)
  /-- Enter a function: a point of the run with a name and no effect. -/
  | enter (s : Site) (k : Prog Row ε Site Call α)
  | call (x : Call) (k : Services.Answer x → Prog Row ε Site Call α)
  | tx {β : Type} (i : Isolation) (s : Site) (body : Tx Row ε β)
      (k : Except ε β → Prog Row ε Site Call α)

section Request

variable {Row Key Index ε Site Call Choice Env : Type}
  [Schema Row Key Index] [Services Call Choice Env] {α β : Type}

/-- Continue with the value of a program or with its error. -/
def Prog.handle : Prog Row ε Site Call α → (α → Prog Row ε Site Call β) →
    (ε → Prog Row ε Site Call β) → Prog Row ε Site Call β
  | .pure a, f, _ => f a
  | .throw e, _, h => h e
  | .now k, f, h => .now fun n => (k n).handle f h
  | .uuid k, f, h => .uuid fun n => (k n).handle f h
  | .enter s k, f, h => .enter s (k.handle f h)
  | .call x k, f, h => .call x fun a => (k a).handle f h
  | .tx i s body k, f, h => .tx i s body fun r => (k r).handle f h

/-- `try … catch`. -/
def Prog.catch (p : Prog Row ε Site Call α) (h : ε → Prog Row ε Site Call α) :
    Prog Row ε Site Call α :=
  p.handle .pure h

/-- The outcome of a program as a value (the first half of
`try … finally`). -/
def Prog.attempt (p : Prog Row ε Site Call α) :
    Prog Row ε Site Call (Except ε α) :=
  p.handle (fun a => .pure (.ok a)) (fun e => .pure (.error e))

instance : Monad (Prog Row ε Site Call) where
  pure := .pure
  bind p f := p.handle f .throw

/-- Continue with an outcome: return the value or throw the error. -/
def Prog.settle : Except ε α → Prog Row ε Site Call α
  | .ok a => .pure a
  | .error e => .throw e

/-- `new Date()`. -/
def Prog.clock : Prog Row ε Site Call Nat := .now .pure

/-- `randomUUID()`. -/
def randomUUID : Prog Row ε Site Call Nat := .uuid .pure

/-- Await an outside call. -/
def await (x : Call) : Prog Row ε Site Call (Services.Answer x) :=
  .call x .pure

/-- `$transaction` with the client's default isolation level. -/
def transaction (s : Site) (body : Tx Row ε β) : Prog Row ε Site Call β :=
  .tx .readCommitted s body .settle

/-- `$transaction` with `isolationLevel: Serializable`. -/
def serializable (s : Site) (body : Tx Row ε β) : Prog Row ε Site Call β :=
  .tx .serializable s body .settle

end Request

end FastRep.Txn
