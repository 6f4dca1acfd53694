/-
`CreditsService` and the administrative grant command.

A credit moves in two places at once: the counter of a grant and the
ledger. `reserve` runs inside the SERIALIZABLE start transaction;
`consumeInTransaction` and `releaseInTransaction` run inside the READ
COMMITTED transactions that settle a generation.

`reserve` tries the usable grants in the order of `compareGrants`: the one
that expires first, with those that never expire last, then by the source of
the credits, then the older grant. It takes the first whose guarded update
hits. A release reads the reservation and whether an entry settles it
already, and gives the credit back to the grant it came from; where it finds
no reservation, no grant or a terminal entry, it writes nothing.
-/
import FastRep.Reports.Services
import Mathlib.Data.List.Sort

namespace FastRep.Reports

open FastRep.Txn

-- ============================================================ selection

def sourcePriority : GenerationCreditSource → Nat
  | .subscriptionMonthly => 0
  | .promotional => 1
  | .admin => 2
  | .refund => 3
  | .purchasedPack => 4

/-- `Number.MAX_SAFE_INTEGER`. -/
def maxSafeInteger : Nat := 9007199254740991

/-- `compareGrants(left, right) <= 0`. -/
def compareGrants (left right : GenerationCreditGrant) : Bool :=
  let leftExpiration := left.expiresAt.getD maxSafeInteger
  let rightExpiration := right.expiresAt.getD maxSafeInteger
  if leftExpiration ≠ rightExpiration then leftExpiration < rightExpiration
  else if sourcePriority left.source ≠ sourcePriority right.source then
    sourcePriority left.source < sourcePriority right.source
  else if left.createdAt ≠ right.createdAt then left.createdAt < right.createdAt
  else left.id ≤ right.id

/-- A grant a reservation of the user may draw on. -/
def GenerationCreditGrant.usable (userId : Id) (now : Time)
    (r : GenerationCreditGrant) : Bool :=
  r.userId = userId && 0 < r.remainingCredits && r.validFrom ≤ now
    && match r.expiresAt with
      | none => true
      | some expiresAt => now < expiresAt

/-- The usable grants, in the order they are tried. -/
def candidates (userId : Id) (now : Time) (d : Db Row) :
    List GenerationCreditGrant :=
  (((grants d).filter (·.usable userId now)).insertionSort fun l r =>
      l.createdAt < r.createdAt ∨ (l.createdAt = r.createdAt ∧ l.id ≤ r.id))
    |>.insertionSort fun l r => compareGrants l r = true

-- =========================================================== operations

/-- Take a credit from the first grant that still has one; whether there
was one. -/
def reserveFrom (userId generationId : Id) :
    List GenerationCreditGrant → InTransaction Bool
  | [] => pure false
  | grant :: rest => do
      let updated ← updateRow (.grant grant.id)
        (onGrant fun r => 0 < r.remainingCredits)
        (setGrant fun r => { r with remainingCredits := r.remainingCredits - 1 })
      if updated ≠ 1 then
        reserveFrom userId generationId rest
      else do
        let createdAt ← Tx.clock
        insertRow (.ledger {
          userId
          generationId := some generationId
          grantId := some grant.id
          type := .reserve
          amount := 1
          idempotencyKey := .generation generationId .reserve
          reason := "Report generation credit reservation"
          createdAt })
        pure true

def reserve (userId generationId : Id) : InTransaction Unit := do
  let existing ← select fun d => ledger? d (.generation generationId .reserve)
  if existing.isSome then
    pure ()
  else do
    let now ← Tx.clock
    let grants ← select (candidates userId now)
    let reserved ← reserveFrom userId generationId grants
    if reserved then
      pure ()
    else do
      let grantCount ← select fun d =>
        ((Reports.grants d).filter (·.userId = userId)).length
      let subscription ← select fun d => (subscriptions d).find? fun r =>
        r.userId = userId && (r.status = .active || r.status = .gracePeriod)
          && now < r.currentPeriodEnd
      if grantCount = 0 ∧ subscription.isNone then
        .throw (conflict "SUBSCRIPTION_REQUIRED"
          "A subscription or purchased generation credits are required")
      else
        .throw (conflict "GENERATION_CREDITS_EXHAUSTED"
          "No generation credits are available")

def findReservation (generationId : Id) :
    InTransaction (Option GenerationCreditTransaction) :=
  select fun d => ledger? d (.generation generationId .reserve)

def findTerminal (generationId : Id) :
    InTransaction (Option GenerationCreditTransaction) :=
  select fun d => (ledger d).find? fun r =>
    r.generationId = some generationId && r.type.terminal

def consumeInTransaction (generationId : Id) : InTransaction Unit := do
  let reservation ← findReservation generationId
  match reservation with
  | none =>
      .throw (conflict "GENERATION_CREDIT_RESERVATION_FAILED"
        "The generation credit reservation is missing")
  | some reservation => do
      let terminal ← findTerminal generationId
      match terminal with
      | some terminal =>
          if terminal.type = .consume then
            pure ()
          else
            .throw (conflict "GENERATION_CREDIT_ALREADY_RELEASED"
              "The generation credit has already been restored")
      | none => do
          let createdAt ← Tx.clock
          insertRow (.ledger {
            userId := reservation.userId
            generationId := some generationId
            grantId := reservation.grantId
            type := .consume
            amount := 1
            idempotencyKey := .generation generationId .consume
            reason := "Successful report generation"
            createdAt })

def releaseInTransaction (generationId : Id) (reason : String) :
    InTransaction Unit := do
  let reservation ← findReservation generationId
  match reservation with
  | none => pure ()
  | some reservation =>
      match reservation.grantId with
      | none => pure ()
      | some grantId => do
          let terminal ← findTerminal generationId
          if terminal.isSome then
            pure ()
          else do
            updateOrThrow (.grant grantId)
              (setGrant fun r => { r with remainingCredits := r.remainingCredits + 1 })
            let createdAt ← Tx.clock
            insertRow (.ledger {
              userId := reservation.userId
              generationId := some generationId
              grantId := some grantId
              type := .release
              amount := 1
              idempotencyKey := .generation generationId .release
              reason := slice reason 200
              createdAt })

-- ================================================================ grants

/-- The grant of a subscription period, as it is created. -/
def monthlyGrant (id userId : Id) (subscriptionPeriodKey : String)
    (totalCredits : Int) (validFrom expiresAt createdAt : Time) :
    GenerationCreditGrant where
  id
  userId
  source := .subscriptionMonthly
  totalCredits
  remainingCredits := totalCredits
  validFrom
  expiresAt := some expiresAt
  subscriptionPeriodKey := some subscriptionPeriodKey
  externalPurchaseId := none
  createdAt

def allocateMonthly (userId : Id) (subscriptionPeriodKey : String)
    (totalCredits : Int) (validFrom expiresAt : Time) : Async Unit :=
  if subscriptionPeriodKey.isEmpty || totalCredits ≤ 0 then
    .throw (.other "Invalid monthly credit allocation")
  else do
    let id ← randomUUID
    transaction (.allocateMonthly userId subscriptionPeriodKey) do
      let existing ← select fun d =>
        ledger? d (.subscriptionPeriod userId subscriptionPeriodKey)
      if existing.isSome then
        pure ()
      else do
        let createdAt ← Tx.clock
        let grant ← upsertRow
          (onGrant fun r => r.userId = userId
            && r.subscriptionPeriodKey = some subscriptionPeriodKey)
          (.grant (monthlyGrant id userId subscriptionPeriodKey totalCredits
            validFrom expiresAt createdAt))
          (fun r => r)
        let createdAt ← Tx.clock
        insertRow (.ledger {
          userId
          generationId := none
          grantId := match grant with
            | .grant r => some r.id
            | _ => none
          type := .grant
          amount := totalCredits
          idempotencyKey := .subscriptionPeriod userId subscriptionPeriodKey
          reason := "Monthly subscription credit allocation"
          createdAt })

/-- `assertCreditGrantEnabled`. -/
def assertCreditGrantEnabled (cfg : Config) : Async Unit :=
  if cfg.nodeEnvironment = some "production" then
    .throw (.other "Development credit grants are disabled in production")
  else if cfg.enableDevCreditGrants ≠ some "true" then
    .throw (.other "ENABLE_DEV_CREDIT_GRANTS=true is required")
  else
    pure ()

/-- The grant command, for an address already normalized. -/
def grantGenerationCredits (cfg : Config) (email : String) (amount : Nat)
    (requestKey : String) : Async Unit :=
  if email.isEmpty || requestKey.isEmpty || amount < 1 || 1000 < amount then
    .throw (.other "Usage: npm run credits:grant -- --email=user@example.com --credits=5 --idempotency-key=ticket-123")
  else do
    assertCreditGrantEnabled cfg
    let user ← query (.grantGenerationCredits requestKey) fun d =>
      d.rows.findSome? fun
        | .user r => if r.email = email then some r else none
        | _ => none
    match user.bind fun r => r.emailVerifiedAt.map fun _ => r.id with
    | none => .throw (.other "A verified user with that email was not found")
    | some userId => do
        let id ← randomUUID
        transaction (.grantGenerationCredits requestKey) do
          let existing ← select fun d => ledger? d (.adminCreditGrant requestKey)
          if existing.isSome then
            pure ()
          else do
            let createdAt ← Tx.clock
            insertRow (.grant {
              id
              userId
              source := .admin
              totalCredits := amount
              remainingCredits := amount
              validFrom := createdAt
              expiresAt := none
              subscriptionPeriodKey := none
              externalPurchaseId := none
              createdAt })
            let createdAt ← Tx.clock
            insertRow (.ledger {
              userId
              generationId := none
              grantId := some id
              type := .grant
              amount
              idempotencyKey := .adminCreditGrant requestKey
              reason := "Protected administrative credit grant"
              createdAt })

end FastRep.Reports
