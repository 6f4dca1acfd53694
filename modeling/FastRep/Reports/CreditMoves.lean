/-
How a commit moves credits.

`Effect` says what a transaction writes; this module adds what the credit
operations read on the way: the reservation an entry belongs to, and why a
release wrote nothing. The facts are a promise of the single transactions
(`Credited`), so they need no walk along the requests.

# The moves

`CreditMove` is a commit as far as credits go: it reserves, consumes,
releases, opens a grant, or moves nothing (`Idle`). Deleting a generation
takes its name off the entries and nothing else, so entries are compared
without it (`unlinked`, `posting?`). A release that wrote nothing says why:
the generation was seen stored, and since then nothing was left to release.

# The books

`books` reads the grants and the ledger as credit accounts with
reservations: a grant is an account, a generation is a job. The ledger
keeps the entries of a generation under keys of their own, so a job is
remembered after its generation is gone. The laws of `FastRep.Accounts` then
speak about this ledger.
-/
import FastRep.Accounts
import FastRep.Reports.Effects
import FastRep.Txn.Bodies

namespace FastRep.Reports

open FastRep.Txn FastRep.Accounts

/-- The sites whose transactions write grants or new ledger entries. -/
def Site.movesCredits : Site → Bool
  | .start _ _ _ _ | .compensateQueueFailure _ | .cancel _ | .failGeneration _ _
  | .finalizeSuccess _ _ | .allocateMonthly _ _ | .grantGenerationCredits _ => true
  | _ => false

-- ============================================================= the promise

/-- The entry names the user and the grant of the reservation. -/
def Matches (generationId : Id) (l : GenerationCreditTransaction) (S : RState) : Prop :=
  Once S fun d => ∃ r, ledger? d (.generation generationId .reserve) = some r ∧
    l.userId = r.userId ∧ l.grantId = r.grantId

/-- The entry draws on a grant the user may use at that moment. -/
def Draws (userId : Id) (l : GenerationCreditTransaction) (S : RState) : Prop :=
  ∃ x, grant? S.db x.id = some x ∧ l.grantId = some x.id ∧ l.userId = userId ∧
    x.usable userId S.clock = true

/-- The generation was seen stored, and after that nothing was left to
release. -/
def SettledSince (S : RState) (generationId : Id) : Prop :=
  ∃ newer e older, S.trace = newer ++ e :: older ∧ Settled generationId e.before.db ∧
    ∃ e' ∈ older, (generation? e'.before.db generationId).isSome = true

/-- What a commit that gives a reservation back promises. -/
def GivesBack (generationId : Id) (ws : List (Write Row Key)) (S : RState) : Prop :=
  (∀ l, .insert (.ledger l) ∈ ws → Matches generationId l S) ∧
    (ws ≠ [] → (∀ l, .insert (.ledger l) ∉ ws) → SettledSince S generationId)

/-- What the transactions promise of the credits they move. -/
def Credited : Promise Row Error Site Call Req Res := fun _ s ws S =>
  match s with
  | .start userId _ _ _ => ∀ l, .insert (.ledger l) ∈ ws → Draws userId l S
  | .finalizeSuccess generationId _ =>
      ∀ l, .insert (.ledger l) ∈ ws → Matches generationId l S
  | .cancel generationId | .failGeneration generationId _
  | .compensateQueueFailure generationId => GivesBack generationId ws S
  | .allocateMonthly userId _ => ∀ l, .insert (.ledger l) ∈ ws → l.userId = userId
  | .grantGenerationCredits _ => ∀ l x, .insert (.ledger l) ∈ ws → .insert (.grant x) ∈ ws →
      l.userId = x.userId
  | _ => True

-- ============================================================= the commits

/-- An entry that names no generation any more. -/
def GenerationCreditTransaction.unlinked (l : GenerationCreditTransaction) :
    GenerationCreditTransaction :=
  { l with generationId := none }

/-- The entry under a key, without the name of its generation. -/
def posting? (d : Db Row) (k : LedgerKey) : Option GenerationCreditTransaction :=
  (ledger? d k).map (·.unlinked)

/-- Grants and entries stay as they are, but an entry whose generation is
gone may lose the name of it. -/
structure Idle (d d' : Db Row) : Prop where
  grant : ∀ i, grant? d' i = grant? d i
  entry : ∀ k, ledger? d' k = ledger? d k ∨
    ∃ l g, ledger? d k = some l ∧ l.generationId = some g ∧ generation? d' g = none ∧
      ledger? d' k = some l.unlinked

/-- The type of the entries an action adds. -/
def CreditAction.type : CreditAction → GenerationCreditTransactionType
  | .reserve => .reserve
  | .consume => .consume
  | .release => .release

/-- The sites that give the reservation of a generation back. -/
def Site.givesBack (generationId : Id) : Site → Bool
  | .cancel g | .failGeneration g _ | .compensateQueueFailure g => g = generationId
  | _ => false

/-- The sites that make the entries of an action for a generation. -/
def Site.enters (generationId : Id) : CreditAction → Site → Bool
  | .reserve, .start _ _ _ g => g = generationId
  | .consume, .finalizeSuccess g _ => g = generationId
  | .release, s => s.givesBack generationId
  | _, _ => false

/-- The part of a commit that moves credits, with the reason where it is
empty. -/
inductive CreditMove (S : RState) : Site → List (Write Row Key) → List (Write Row Key) → Prop
  | idle {s ws} : s.movesCredits = false ∨ ws = [] → CreditMove S s ws []
  /-- The reservation of a new generation was already there. -/
  | unspent {userId reportId k g ws} : ws ≠ [] →
      (ledger? S.db (.generation g .reserve)).isSome = true →
      CreditMove S (.start userId reportId k g) ws []
  /-- The credit of a generation that completes was already consumed. -/
  | spent {g tok ws} : (generation? S.db g).isSome = true →
      (Once S fun d => ∃ l ∈ ledger d, l.generationId = some g ∧ l.type = .consume) →
      CreditMove S (.finalizeSuccess g tok) ws []
  /-- There was nothing left to give back. -/
  | settled {s g ws} : s.givesBack g = true → (generation? S.db g).isSome = true →
      SettledSince S g → CreditMove S s ws []
  /-- A grant with its GRANT entry. -/
  | granted {s ws x l} : (∃ u k, s = .allocateMonthly u k) ∨ (∃ k, s = .grantGenerationCredits k) →
      grant? S.db x.id = none → 0 < x.totalCredits → x.remainingCredits = x.totalCredits →
      l.type = .grant → l.generationId = none → l.grantId = some x.id →
      l.amount = x.totalCredits → l.userId = x.userId →
      (∀ g a, l.idempotencyKey ≠ .generation g a) →
      (∀ p, x.subscriptionPeriodKey = some p →
        l.idempotencyKey = .subscriptionPeriod x.userId p) →
      ledger? S.db l.idempotencyKey = none →
      CreditMove S s ws [.insert (.grant x), .insert (.ledger l)]
  /-- The GRANT entry of a monthly grant that is already stored. -/
  | entered {u k ws x l} : grant? S.db x.id = some x → l.type = .grant → l.generationId = none →
      l.grantId = some x.id → x.userId = u → x.subscriptionPeriodKey = some k →
      l.idempotencyKey = .subscriptionPeriod u k → ledger? S.db l.idempotencyKey = none →
      CreditMove S (.allocateMonthly u k) ws [.update (.grant x), .insert (.ledger l)]
  /-- A new generation takes a credit of a grant its user may use. -/
  | reserved {userId reportId k g ws x l} : ws ≠ [] → grant? S.db x.id = some x →
      0 < x.remainingCredits → x.usable userId S.clock = true →
      l.IsEntry g .reserve .reserve → l.grantId = some x.id → l.userId = userId →
      ledger? S.db (.generation g .reserve) = none →
      CreditMove S (.start userId reportId k g) ws
        [.update (.grant { x with remainingCredits := x.remainingCredits - 1 }),
          .insert (.ledger l)]
  | consumed {g tok ws l} : (generation? S.db g).isSome = true → l.IsEntry g .consume .consume →
      Matches g l S → ledger? S.db (.generation g .consume) = none → NoTerminal g S.db →
      CreditMove S (.finalizeSuccess g tok) ws [.insert (.ledger l)]
  | released {s g ws x l} : s.givesBack g = true → ws ≠ [] →
      (generation? S.db g).isSome = true → grant? S.db x.id = some x →
      x.remainingCredits + 1 ≤ x.totalCredits → l.IsEntry g .release .release →
      l.grantId = some x.id → Matches g l S →
      ledger? S.db (.generation g .release) = none → NoTerminal g S.db →
      CreditMove S s ws
        [.update (.grant { x with remainingCredits := x.remainingCredits + 1 }),
          .insert (.ledger l)]

-- =============================================================== the books

/-- The grants and the ledger as accounts with reservations. -/
def books (d : Db Row) : Books Id Id where
  total := fun i => (grant? d i).map (·.totalCredits)
  remaining := fun i => ((grant? d i).map (·.remainingCredits)).getD 0
  reserved := fun g => (ledger? d (.generation g .reserve)).bind (·.grantId)
  settled := fun g =>
    if (ledger? d (.generation g .consume)).isSome then some .consumed
    else if (ledger? d (.generation g .release)).isSome then some .released
    else none

/-- How the credit of a generation with the status is settled. -/
def ReportGenerationStatus.settlement : ReportGenerationStatus → Option Settlement
  | .queued | .processing => none
  | .completed => some .consumed
  | .failed | .cancelled => some .released

/-- The entries of a type on a grant. -/
def entriesOf (type : GenerationCreditTransactionType) (grantId : Id) (d : Db Row) :
    List GenerationCreditTransaction :=
  (ledger d).filter fun l => l.type = type && l.grantId = some grantId

end FastRep.Reports
