/-
What the authentication side talks to outside its database, the errors it
throws, the settings it reads and the names of its transactions.

A mail is delivered or its provider throws, with or without the mail
having gone out. A random code is any six digits. Checking a secret
against a stored hash and sending a code are named steps of the run, so
that guesses and mails can be counted and compared with what is stored at
that moment.

An error keeps its status and its text, as the source throws it; what the
database client reports is an error too, by the Prisma code the source asks
for (`Error.isWriteConflict`). Settings that the source reads through
`getPositiveInteger` are positive by their type.
-/
import FastRep.Auth.Schema
import FastRep.Txn.Machine

namespace FastRep.Auth

open FastRep.Txn

-- ============================================================== errors

inductive Error where
  | db (e : DbError)
  /-- an HTTP exception with its status and message -/
  | api (status : Nat) (message : String)
  /-- 429 `REGISTRATION_CODE_COOLDOWN` with its details -/
  | registrationCooldown (retryAfterSeconds : Nat)
  /-- what the mail provider throws -/
  | mail
  deriving DecidableEq, Repr

instance : DbErrors Error := ⟨.db⟩

def badRequest (message : String) : Error := .api 400 message

def unauthorized (message : String) : Error := .api 401 message

def conflict (message : String) : Error := .api 409 message

def tooManyRequests (message : String) : Error := .api 429 message

def serviceUnavailable (message : String) : Error := .api 503 message

/-- `error instanceof HttpException && error.getStatus() === 429`. -/
def Error.isTooManyRequests : Error → Bool
  | .api status _ => status = 429
  | .registrationCooldown _ => true
  | _ => false

/-- `error instanceof ConflictException`. -/
def Error.isConflict : Error → Bool
  | .api status _ => status = 409
  | _ => false

/-- A Prisma error of code P2002 or P2034. -/
def Error.isWriteConflict : Error → Bool
  | .db .uniqueConstraint | .db .writeConflict => true
  | _ => false

-- ============================================================= settings

/-- A value `getPositiveInteger` returns. -/
abbrev PositiveInteger := { n : Nat // 0 < n }

/-- `RegistrationPolicy`. -/
structure RegistrationPolicy where
  codeTtlMinutes : PositiveInteger
  maxAttempts : PositiveInteger
  resendCooldownSeconds : PositiveInteger
  pendingTtlHours : PositiveInteger

/-- The `PASSWORD_RESET_*` settings. -/
structure PasswordResetPolicy where
  codeTtlMinutes : PositiveInteger
  maxAttempts : PositiveInteger
  resendCooldownSeconds : PositiveInteger

structure Config where
  registration : RegistrationPolicy
  passwordReset : PasswordResetPolicy

-- ================================================================ calls

inductive Call where
  /-- `randomInt(0, 1_000_000)` -/
  | randomInt
  | sendRegistrationVerificationCode (recipient code : String) (expiresInMinutes : Nat)
      (language : String)
  | sendPasswordResetCode (recipient code : String) (expiresInMinutes : Nat)
  deriving DecidableEq, Repr

inductive Choice where
  | drawn (n : Nat)
  | done
  /-- the provider throws and no mail went out -/
  | failed
  /-- the provider throws after the mail went out -/
  | lost
  deriving DecidableEq, Repr

/-- A code that was mailed. -/
structure Mail where
  recipient : String
  code : String
  deriving DecidableEq, Repr

/-- The outside world: the mails that went out, last first. -/
abbrev Env := List Mail

/-- What a call returns. -/
def Call.Value : Call → Type
  | .randomInt => Nat
  | _ => Unit

def Call.serve (v : Env) : (x : Call) → Choice → Option (Except Error x.Value × Env)
  | .randomInt, .drawn n => if n < 1000000 then some (.ok n, v) else none
  | .sendRegistrationVerificationCode recipient code _ _, .done => some (.ok (), ⟨recipient, code⟩ :: v)
  | .sendRegistrationVerificationCode _ _ _ _, .failed => some (.error .mail, v)
  | .sendRegistrationVerificationCode recipient code _ _, .lost =>
      some (.error .mail, ⟨recipient, code⟩ :: v)
  | .sendPasswordResetCode recipient code _, .done => some (.ok (), ⟨recipient, code⟩ :: v)
  | .sendPasswordResetCode _ _ _, .failed => some (.error .mail, v)
  | .sendPasswordResetCode recipient code _, .lost => some (.error .mail, ⟨recipient, code⟩ :: v)
  | _, _ => none

instance : Services Call Choice Env where
  Answer x := Except Error x.Value
  perform x c _ v := x.serve v c
  ambient _ _ _ := none

-- ================================================================ sites

/-- The transactions and functions of the authentication side. -/
inductive Site where
  | findUser (email : String)
  | findUserById (userId : Id)
  -- register
  | register (email : String)
  | findPending (email : String)
  | sendRegistrationCode (pendingId : Id) (codeHash : Hash)
  | withdrawRegistrationCode (pendingId : Id) (codeHash : Hash)
  -- verifyRegistration
  | dropExpired (pendingId : Id)
  | testRegistrationCode (pendingId : Id) (codeHash : Hash) (ok : Bool)
  | recordFailedRegistrationAttempt (pendingId : Id) (codeHash : Hash)
  | verifyRegistration (email : String) (pendingId : Id) (codeHash : Hash)
  -- resendRegistrationCode
  | resendRegistrationCode (email : String)
  -- sessions
  | testPassword (userId : Id) (passwordHash : Hash) (ok : Bool)
  | createToken (userId tokenId : Id)
  | findToken (tokenId : Id)
  | testToken (tokenId : Id) (tokenHash : Hash) (ok : Bool)
  | refresh (tokenId nextTokenId : Id)
  | logout (tokenId : Id)
  -- forgotPassword
  | forgotPassword (userId : Id)
  | sendResetCode (requestId : Id)
  | withdrawReset (requestId : Id)
  -- resetPassword
  | findReset (userId : Id)
  | testResetCode (requestId : Id) (ok : Bool)
  | recordFailedResetAttempt (requestId : Id)
  | resetPassword (userId requestId : Id)
  deriving DecidableEq, Repr

/-- A program of the authentication side, and the body of one of its
transactions. -/
abbrev Async (α : Type) := Prog Row Error Site Call α

abbrev InTransaction (α : Type) := Tx Row Error α

/-- A query outside an explicit transaction. -/
def query {α : Type} (s : Site) (f : Db Row → α) : Async α :=
  transaction s (select f)

/-- Await a call; its error is thrown. -/
def awaitOk (x : Call) : Async x.Value :=
  await x >>= fun r => Prog.settle r

/-- `argon2.hash` with its salt. -/
def hash (value : Secret) : Async Hash := do
  let salt ← randomUUID
  pure { salt, value }

/-- `verifyHash`, at a named step. -/
def verifyHash (s : Bool → Site) (stored : Hash) (value : Secret) : Async Bool :=
  .enter (s (stored.accepts value)) (pure (stored.accepts value))

/-- `generateSixDigitCode`: six digits, padded with zeros. -/
def sixDigits (n : Nat) : String :=
  String.ofList (List.replicate (6 - (toString n).length) '0') ++ toString n

def generateSixDigitCode : Async String := do
  let n : Nat ← awaitOk .randomInt
  pure (sixDigits n)

end FastRep.Auth
