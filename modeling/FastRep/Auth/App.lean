/-
The authentication side as an application of the transaction machine: the
requests it serves and their programs.

A request is a call of one of the endpoints of `auth.controller.ts` with the
values of its body, or a refresh token as a client presents it. Any number of
them run at once, each in a thread of its own, and any of their database
calls may fail.

`Reached` are the states of such runs, from a database with users in it. It
is asked of the start (`Unused`) that nothing is in progress there: pending
registrations, tokens and reset requests are those the run makes. Users may
be there, and may have any names and passwords.
-/
import FastRep.Auth.AuthService
import FastRep.Txn.Triple

namespace FastRep.Auth

open FastRep.Txn

inductive Req where
  | register (dto : RegisterDto)
  | verifyRegistration (email code : String)
  | resendRegistrationCode (email : String)
  | login (email password : String)
  | refresh (refreshToken : Jwt)
  | logout (refreshToken : Jwt)
  | forgotPassword (email : String)
  | resetPassword (email code newPassword : String)
  deriving DecidableEq, Repr

inductive Res where
  | done
  | pending (r : RegistrationPendingResult)
  | authenticated (r : AuthenticationResult)
  | tokens (r : TokenPair)
  deriving DecidableEq, Repr

def main (cfg : Config) : Req → Async Res
  | .register dto => do
      let r ← register cfg dto
      pure (.pending r)
  | .verifyRegistration email code => do
      let r ← verifyRegistration cfg email code
      pure (.authenticated r)
  | .resendRegistrationCode email => do
      resendRegistrationCode cfg email
      pure .done
  | .login email password => do
      let r ← login email password
      pure (.authenticated r)
  | .refresh refreshToken => do
      let r ← refresh refreshToken
      pure (.tokens r)
  | .logout refreshToken => do
      logout refreshToken
      pure .done
  | .forgotPassword email => do
      forgotPassword cfg email
      pure .done
  | .resetPassword email code newPassword => do
      resetPassword cfg email code newPassword
      pure .done

def app (cfg : Config) : App Row Error Site Call Req Res where
  main := main cfg
  ready := fun _ _ => true

/-- The shared state and the events of the authentication side. -/
abbrev AState := Shared Row Error Site Call Req Res

abbrev AEntry := Entry Row Error Site Call Req Res

abbrev AWorld := World Row Error Site Call Req Res

abbrev AContract := Contract Row Error Site Call Req Res

/-- A database without registrations, sessions and reset requests in
progress, whose users have ids drawn earlier and different addresses. -/
structure Unused (d : Db Row) (nextId : Nat) : Prop where
  rows : ∀ r ∈ d.rows, ∃ u, r = .user u ∧ u.id < nextId
  emails : ((users d).map (·.email)).Nodup

/-- The states a run of the authentication side reaches, from a database of
users and with no mail sent. -/
def Reached (cfg : Config) (w : AWorld) : Prop :=
  ∃ db clock nextId, Unused db nextId ∧ Reachable (app cfg) (World.init db [] clock nextId) w

end FastRep.Auth
