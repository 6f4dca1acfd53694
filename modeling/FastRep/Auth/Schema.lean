/-
The tables of the authentication side: users, pending registrations,
refresh tokens and password-reset requests.

A record is one table of `schema.prisma`, without `updatedAt` and the
profile columns nothing here reads. Ids are the UUIDs in the order they
were drawn, times are milliseconds. An Argon2id hash is the value it was
made of and its salt: `argon2.verify` accepts exactly that value, and two
hashes made at different moments differ.

The unique indexes are the email of a user, the email of a pending
registration, and the partial index on the one unused reset request of a
user that a migration creates. Between the emails of the two tables there is
none. Tokens and reset requests refer to their user and go with it.
-/
import FastRep.Txn.Store

namespace FastRep.Auth

open FastRep.Txn

/-- A UUID. -/
abbrev Id := Nat

/-- A `Date`, in milliseconds. -/
abbrev Time := Nat

-- ============================================================== values

/-- A JWT as a client presents it: a refresh token signed for this issuer
and audience, with the second it expires in, or anything that does not
verify as one. -/
inductive Jwt where
  | refresh (sub jti : Id) (exp : Nat)
  | access (sub : Id) (exp : Nat)
  | other (text : String)
  deriving DecidableEq, Repr

/-- What is hashed: a password, a six-digit code or a refresh token. -/
inductive Secret where
  | text (value : String)
  | token (value : Jwt)
  deriving DecidableEq, Repr

/-- An Argon2id hash. -/
structure Hash where
  salt : Id
  value : Secret
  deriving DecidableEq, Repr

/-- `argon2.verify`. -/
def Hash.accepts (h : Hash) (value : Secret) : Bool := h.value = value

-- ============================================================== tables

structure User where
  id : Id
  fullName : String
  email : String
  passwordHash : Hash
  language : String
  emailVerifiedAt : Option Time
  createdAt : Time
  deriving DecidableEq, Repr

structure PendingRegistration where
  id : Id
  email : String
  passwordHash : Hash
  fullName : String
  language : String
  codeHash : Hash
  expiresAt : Time
  attemptCount : Nat
  lastSentAt : Time
  pendingExpiresAt : Time
  deriving DecidableEq, Repr

structure RefreshToken where
  id : Id
  userId : Id
  tokenHash : Hash
  expiresAt : Time
  deriving DecidableEq, Repr

structure PasswordResetRequest where
  id : Id
  userId : Id
  codeHash : Hash
  expiresAt : Time
  attemptCount : Nat
  usedAt : Option Time
  createdAt : Time
  deriving DecidableEq, Repr

-- =============================================================== schema

inductive Row where
  | user (r : User)
  | pending (r : PendingRegistration)
  | token (r : RefreshToken)
  | reset (r : PasswordResetRequest)
  deriving DecidableEq, Repr

inductive Key where
  | user (id : Id)
  | pending (id : Id)
  | token (id : Id)
  | reset (id : Id)
  deriving DecidableEq, Repr

/-- The unique indexes beside the keys. `activeReset` is the partial one of
the migration: one unused request for each user. -/
inductive Index where
  | userEmail (email : String)
  | pendingEmail (email : String)
  | activeReset (userId : Id)
  deriving DecidableEq, Repr

instance : Schema Row Key Index where
  key
    | .user r => .user r.id
    | .pending r => .pending r.id
    | .token r => .token r.id
    | .reset r => .reset r.id
  indexes
    | .user r => [.userEmail r.email]
    | .pending r => [.pendingEmail r.email]
    | .token _ => []
    | .reset r => if r.usedAt.isNone then [.activeReset r.userId] else []
  references
    | .token r => [(.user r.userId, .cascade)]
    | .reset r => [(.user r.userId, .cascade)]
    | _ => []
  unlink _ r := r
  check _ := true

-- ============================================================== lookups

section Lookups

variable (d : Db Row)

def user? (id : Id) : Option User :=
  match d.find? (.user id) with
  | some (.user r) => some r
  | _ => none

def pending? (id : Id) : Option PendingRegistration :=
  match d.find? (.pending id) with
  | some (.pending r) => some r
  | _ => none

def token? (id : Id) : Option RefreshToken :=
  match d.find? (.token id) with
  | some (.token r) => some r
  | _ => none

def reset? (id : Id) : Option PasswordResetRequest :=
  match d.find? (.reset id) with
  | some (.reset r) => some r
  | _ => none

def users : List User :=
  d.rows.filterMap fun | .user r => some r | _ => none

def pendings : List PendingRegistration :=
  d.rows.filterMap fun | .pending r => some r | _ => none

def tokens : List RefreshToken :=
  d.rows.filterMap fun | .token r => some r | _ => none

def resets : List PasswordResetRequest :=
  d.rows.filterMap fun | .reset r => some r | _ => none

end Lookups

/-- `findUnique({ where: { email } })` on users. -/
def userByEmail (email : String) (d : Db Row) : Option User :=
  (users d).find? fun r => r.email = email

/-- `findUnique({ where: { email } })` on pending registrations. -/
def pendingByEmail (email : String) (d : Db Row) : Option PendingRegistration :=
  (pendings d).find? fun r => r.email = email

/-- A statement condition on the rows of one table; rows of other tables
never match. -/
def onPending (p : PendingRegistration → Bool) : Row → Bool
  | .pending r => p r
  | _ => false

def onToken (p : RefreshToken → Bool) : Row → Bool
  | .token r => p r
  | _ => false

def onReset (p : PasswordResetRequest → Bool) : Row → Bool
  | .reset r => p r
  | _ => false

/-- An assignment to the columns of one table. -/
def setUser (f : User → User) : Row → Row
  | .user r => .user (f r)
  | r => r

def setPending (f : PendingRegistration → PendingRegistration) : Row → Row
  | .pending r => .pending (f r)
  | r => r

def setReset (f : PasswordResetRequest → PasswordResetRequest) : Row → Row
  | .reset r => .reset (f r)
  | r => r

end FastRep.Auth
