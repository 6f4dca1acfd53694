/-
What the transactions of the authentication side do when they commit.

`Effect` is the commit clause of the contract: for each site, the writes
the transaction commits with and what is true of the committed database at
that moment. What a request read earlier, without a lock, is stated of the
scene it was read in, as an entry of the trace.

# What is true at a commit

Each clause says what the transaction's locks hold on to, and no more. A
guarded update of `recordFailedRegistrationAttempt` hit the row as it is at
the commit; the user that `register` did not find was missing when the
search ran, which is another moment (`SawInside`). What is lost in between
is what the races of this side are made of.

# What is counted

A request makes at most one commit that uses up an id it drew or a secret it
was given (`Site.marked`), and takes at most one of the named steps that test
or send (`Site.named`). So an id is used up once in a run, and a success can
be traced back to the commit it reports (`Finishes`).
-/
import FastRep.Auth.App

namespace FastRep.Auth

open FastRep.Txn

/-- Commits that are counted: those that use up what a request drew or was
given. A request makes at most one of them. -/
def Site.marked : Site → Bool
  | .register _ | .verifyRegistration _ _ _ | .resendRegistrationCode _ | .createToken _ _
  | .refresh _ _ | .forgotPassword _ | .resetPassword _ _ => true
  | _ => false

/-- The steps that are counted: a test of a secret, the sending of a code.
A request makes at most one of them. -/
def Site.named : Site → Bool
  | .testRegistrationCode _ _ _ | .testPassword _ _ _ | .testToken _ _ _
  | .testResetCode _ _ | .sendRegistrationCode _ _ | .sendResetCode _ => true
  | _ => false

def marking : Marking Site where
  commits := Site.marked
  enters := Site.named

/-- The counted commits of a thread, last first. -/
abbrev marks (S : AState) (t : Tid) : List Site := S.marks marking t

/-- The counted steps of a thread, last first. -/
abbrev named (S : AState) (t : Tid) : List Site := S.entered marking t

/-- The sites of a request. -/
def Site.servedBy : Req → Site → Bool
  | .register _, .findUser _ | .register _, .register _ | .register _, .findPending _
  | .register _, .withdrawRegistrationCode _ _ => true
  | .verifyRegistration _ _, .findPending _ | .verifyRegistration _ _, .dropExpired _
  | .verifyRegistration _ _, .recordFailedRegistrationAttempt _ _
  | .verifyRegistration _ _, .verifyRegistration _ _ _ => true
  | .resendRegistrationCode _, .findUser _
  | .resendRegistrationCode _, .resendRegistrationCode _
  | .resendRegistrationCode _, .withdrawRegistrationCode _ _ => true
  | .login _ _, .findUser _ | .login _ _, .findUserById _ | .login _ _, .createToken _ _ => true
  | .refresh _, .findToken _ | .refresh _, .refresh _ _ => true
  | .logout _, .findToken _ | .logout _, .logout _ => true
  | .forgotPassword _, .findUser _ | .forgotPassword _, .forgotPassword _
  | .forgotPassword _, .withdrawReset _ => true
  | .resetPassword _ _ _, .findUser _ | .resetPassword _ _ _, .findReset _
  | .resetPassword _ _ _, .recordFailedResetAttempt _
  | .resetPassword _ _ _, .resetPassword _ _ => true
  | _, _ => false

/-- The thread saw a committed database like this at a step of its own. -/
def Saw (S : AState) (t : Tid) (p : Db Row → Prop) : Prop :=
  ∃ e ∈ S.trace, e.tid = t ∧ p e.before.db

/-- The thread saw a committed database like this at a statement of the site. -/
def Looked (S : AState) (t : Tid) (s : Site) (p : Db Row → Prop) : Prop :=
  ∃ e ∈ S.trace, e.tid = t ∧ e.event = .statement s ∧ p e.before.db

/-- After that statement the thread saw a committed database like that. -/
def LookedAgain (S : AState) (t : Tid) (s : Site) (p p' : Db Row → Prop) : Prop :=
  ∃ newer e older, S.trace = newer ++ e :: older ∧ e.tid = t ∧ p' e.before.db ∧
    ∃ e' ∈ older, e'.tid = t ∧ e'.event = .statement s ∧ p e'.before.db

/-- The thread saw a committed database like this at a statement of the
transaction it is in. -/
def SawInside (S : AState) (t : Tid) (s : Site) (p : Db Row → Prop) : Prop :=
  ∃ newer e older, S.trace = newer ++ e :: older ∧ e.tid = t ∧ e.event = .statement s ∧
    p e.before.db ∧ ∀ e' ∈ newer, e'.before.OpenAt t s 1

/-- The writes give a pending registration a code. -/
def Issues (pendingId : Id) (codeHash : Hash) (ws : List (Write Row Key)) : Prop :=
  ∃ y : PendingRegistration, y.id = pendingId ∧ y.codeHash = codeHash ∧
    (.insert (.pending y) ∈ ws ∨ .update (.pending y) ∈ ws)

/-- A commit of the thread gave a pending registration its code. -/
def Issued (S : AState) (t : Tid) (pendingId : Id) (codeHash : Hash) : Prop :=
  ∃ e ∈ S.trace, e.tid = t ∧ ∃ s ws, e.event = .commit s ws ∧ s.marked = true ∧
    Issues pendingId codeHash ws

/-- The thread tested a secret before. -/
def Tested (S : AState) (t : Tid) (s : Site) : Prop :=
  ∃ e ∈ S.trace, e.tid = t ∧ e.event = .enter s

-- ========================================================= registration

/-- The removal of a pending registration whose time is over. -/
def Drops (ws : List (Write Row Key)) (S : AState) : Prop :=
  ∃ x : PendingRegistration, pending? S.db x.id = some x ∧ x.pendingExpiresAt ≤ S.clock ∧
    ws = [.erase (.pending x.id)]

/-- The commit of `register`. -/
def Registers (cfg : Config) (t : Tid) (email : String) (ws : List (Write Row Key))
    (S : AState) : Prop :=
  ws = [] ∨ ∃ dto pendingId passwordHash codeHash now drop,
    S.asked t = [.register dto] ∧ dto.email = email ∧
    S.ids t = [pendingId, codeHash.salt, passwordHash.salt] ∧ marks S t = [] ∧
    passwordHash.value = .text dto.password ∧ now ≤ S.clock ∧
    (drop = [] ∨ Drops drop S) ∧
    (∀ x ∈ pendings S.db, x.email = email → .erase (.pending x.id) ∈ drop) ∧
    SawInside S t (.register email) (fun d => userByEmail email d = none) ∧
    ws = drop ++ [.insert (.pending
      (newPending cfg dto pendingId passwordHash codeHash now))]

/-- The commit of `verifyRegistration`. -/
def Verifies (cfg : Config) (t : Tid) (email : String) (pendingId : Id) (codeHash : Hash)
    (ws : List (Write Row Key)) (S : AState) : Prop :=
  ∃ code x read userId now createdAt tokenId tokenHash expiresAt,
    S.asked t = [.verifyRegistration email code] ∧ codeHash.accepts (.text code) = true ∧
    (Looked S t (.findPending email) (fun d => pending? d pendingId = some read ∧
      read.codeHash = codeHash ∧ read.attemptCount < cfg.registration.maxAttempts) ∧
      Tested S t (.testRegistrationCode pendingId codeHash true)) ∧
    pending? S.db pendingId = some x ∧ x.codeHash = codeHash ∧ x.email = email ∧
    x.attemptCount < cfg.registration.maxAttempts ∧
    userId ∈ S.ids t ∧ tokenId ∈ S.ids t ∧ marks S t = [] ∧
    (∀ u ∈ users S.db, u.email ≠ email) ∧
    ws = [.erase (.pending pendingId),
      .insert (.user (verifiedUser userId read email now createdAt)),
      .insert (.token (newToken tokenId userId tokenHash expiresAt))]

/-- The commit of `resendRegistrationCode`. -/
def Resends (cfg : Config) (t : Tid) (email : String) (ws : List (Write Row Key))
    (S : AState) : Prop :=
  ws = [] ∨ Drops ws S ∨ ∃ (x : PendingRegistration) (codeHash : Hash) (now : Time),
    pending? S.db x.id = some x ∧ x.email = email ∧
    x.lastSentAt + cfg.registration.resendCooldownSeconds * 1000 ≤ now ∧ now ≤ S.clock ∧
    codeHash.salt ∈ S.ids t ∧ marks S t = [] ∧
    ws = [.update (.pending { x with
      codeHash
      expiresAt := addMinutes now cfg.registration.codeTtlMinutes
      attemptCount := 0
      lastSentAt := now })]

/-- The commit of `invalidatePendingRegistrationCode`: of a code the thread
issued. -/
def Withdraws (cfg : Config) (t : Tid) (pendingId : Id) (codeHash : Hash)
    (ws : List (Write Row Key)) (S : AState) : Prop :=
  Issued S t pendingId codeHash ∧ (ws = [] ∨ ∃ x expiresAt,
    pending? S.db pendingId = some x ∧ x.codeHash = codeHash ∧
    ws = [.update (.pending
      { x with expiresAt, attemptCount := cfg.registration.maxAttempts })])

/-- The commit of `recordFailedRegistrationAttempt`. Where it counts nothing,
the row was found without the code or with another count. -/
def RecordsRegistration (cfg : Config) (t : Tid) (pendingId : Id) (codeHash : Hash)
    (ws : List (Write Row Key)) (S : AState) : Prop :=
  Tested S t (.testRegistrationCode pendingId codeHash false) ∧ ((ws = [] ∧ ∃ email read,
    read.codeHash = codeHash ∧ LookedAgain S t (.findPending email)
      (fun d => pending? d pendingId = some read) fun d => ∀ x, pending? d pendingId = some x →
        x.codeHash = codeHash → x.expiresAt = read.expiresAt →
        x.pendingExpiresAt = read.pendingExpiresAt → x.attemptCount ≠ read.attemptCount) ∨ ∃ x y,
    pending? S.db pendingId = some x ∧ x.codeHash = codeHash ∧
    (∃ email, Looked S t (.findPending email) fun d => ∃ read, pending? d pendingId = some read ∧
      read.codeHash = codeHash ∧ read.attemptCount = x.attemptCount) ∧
    (y = { x with attemptCount := x.attemptCount + 1 } ∨ ∃ expiresAt,
      y = { x with attemptCount := x.attemptCount + 1, expiresAt } ∧
        cfg.registration.maxAttempts ≤ x.attemptCount + 1) ∧
    (ws = [.update (.pending y)] ∨
      ws = [.update (.pending { x with attemptCount := x.attemptCount + 1 }),
        .update (.pending y)]))

-- ============================================================= sessions

/-- The commit of `createToken`, after the password was checked. -/
def Opens (t : Tid) (userId tokenId : Id) (ws : List (Write Row Key)) (S : AState) :
    Prop :=
  ∃ r passwordHash, ws = [.insert (.token r)] ∧ r.id = tokenId ∧ r.userId = userId ∧
    tokenId ∈ S.ids t ∧ marks S t = [] ∧
    Tested S t (.testPassword userId passwordHash true) ∧
    Saw S t (fun d => ∃ u, user? d userId = some u ∧ u.passwordHash = passwordHash)

/-- The commit of `refresh`. -/
def Rotates (t : Tid) (tokenId nextTokenId : Id) (ws : List (Write Row Key)) (S : AState) :
    Prop :=
  ∃ x r exp, token? S.db tokenId = some x ∧ r.id = nextTokenId ∧ r.userId = x.userId ∧
    S.asked t = [.refresh (.refresh x.userId tokenId exp)] ∧
    nextTokenId ∈ S.ids t ∧ marks S t = [] ∧
    ws = [.erase (.token tokenId), .insert (.token r)]

-- ============================================================= recovery

/-- The commit of `forgotPassword`. -/
def Requests (cfg : Config) (t : Tid) (userId : Id) (ws : List (Write Row Key))
    (S : AState) : Prop :=
  ∃ (closed : List PasswordResetRequest) (requestId : Id) (codeHash : Hash)
      (now createdAt : Time),
    (∀ x ∈ closed, reset? S.db x.id = some x ∧ x.userId = userId ∧ x.usedAt = none) ∧
    (closed.map (·.id)).Nodup ∧
    (∀ x ∈ resets S.db, x.userId = userId → x.usedAt = none → x ∈ closed) ∧
    S.ids t = [requestId, codeHash.salt] ∧ marks S t = [] ∧
    now ≤ createdAt ∧ createdAt ≤ S.clock ∧
    SawInside S t (.forgotPassword userId) (fun d => ∀ x ∈ resets d, x.userId = userId →
      x.createdAt + cfg.passwordReset.resendCooldownSeconds * 1000 ≤ now) ∧
    ws = closed.map (fun x => .update (.reset { x with usedAt := some now }))
      ++ [.insert (.reset (newReset cfg requestId userId codeHash now createdAt))]

/-- A request is closed. -/
def ClosesReset (requestId : Id) (ws : List (Write Row Key)) (S : AState) : Prop :=
  ∃ x usedAt, reset? S.db requestId = some x ∧ x.usedAt = none ∧
    ws = [.update (.reset { x with usedAt := some usedAt })]

/-- A commit of the thread created the request. -/
def IssuedReset (S : AState) (t : Tid) (requestId : Id) : Prop :=
  ∃ e ∈ S.trace, e.tid = t ∧ ∃ u ws y, e.event = .commit (.forgotPassword u) ws ∧
    .insert (.reset y) ∈ ws ∧ y.id = requestId

/-- The commit of `recordFailedResetAttempt`. Where it counts nothing, the
request was found used or with another count. -/
def RecordsReset (cfg : Config) (t : Tid) (requestId : Id) (ws : List (Write Row Key))
    (S : AState) : Prop :=
  Tested S t (.testResetCode requestId false) ∧ ((ws = [] ∧ ∃ userId read,
    read.usedAt = none ∧ LookedAgain S t (.findReset userId)
      (fun d => reset? d requestId = some read) fun d => ∀ x, reset? d requestId = some x →
        x.usedAt = none → x.expiresAt = read.expiresAt → x.attemptCount ≠ read.attemptCount) ∨
  ∃ x y,
    reset? S.db requestId = some x ∧ x.usedAt = none ∧
    (∃ userId, Looked S t (.findReset userId) fun d => ∃ read, reset? d requestId = some read ∧
      read.usedAt = none ∧ read.attemptCount = x.attemptCount) ∧
    (y = { x with attemptCount := x.attemptCount + 1 } ∨ ∃ usedAt,
      y = { x with attemptCount := x.attemptCount + 1, usedAt := some usedAt } ∧
        cfg.passwordReset.maxAttempts ≤ x.attemptCount + 1) ∧
    (ws = [.update (.reset y)] ∨
      ws = [.update (.reset { x with attemptCount := x.attemptCount + 1 }),
        .update (.reset y)]))

/-- What the `deleteMany` of a reset does not remove of the tokens it found in
its fifth statement was gone when it came to remove it. -/
def FoundTokens (S : AState) (t : Tid) (s : Site) (userId : Id) (gone : List Id) : Prop :=
  ∃ newer e older, S.trace = newer ++ e :: older ∧ e.tid = t ∧ e.event = .statement s ∧
    (∀ e' ∈ newer, e'.before.OpenAt t s 5) ∧ ∀ y ∈ tokens e.before.db, y.userId = userId →
      y.id ∈ gone ∨ ∃ e' ∈ newer, ∀ z, token? e'.before.db y.id = some z → z.userId ≠ userId

/-- The commit of `resetPassword`. -/
def Resets (cfg : Config) (t : Tid) (userId requestId : Id) (ws : List (Write Row Key))
    (S : AState) : Prop :=
  ∃ email code newPassword x read u passwordHash now,
    ∃ (closed : List PasswordResetRequest) (gone : List Id),
    S.asked t = [.resetPassword email code newPassword] ∧
    (Looked S t (.findReset userId) (fun d => reset? d requestId = some read ∧
      read.usedAt = none ∧ read.attemptCount < cfg.passwordReset.maxAttempts) ∧
      Tested S t (.testResetCode requestId true)) ∧
    read.codeHash.accepts (.text code) = true ∧
    reset? S.db requestId = some x ∧ x.usedAt = none ∧ x.userId = userId ∧
    x.attemptCount < cfg.passwordReset.maxAttempts ∧
    user? S.db userId = some u ∧ passwordHash.value = .text newPassword ∧
    marks S t = [] ∧
    (∀ y ∈ closed, reset? S.db y.id = some y ∧ y.userId = userId ∧ y.usedAt = none ∧
      y.id ≠ requestId) ∧
    (∀ i ∈ gone, ∃ y, token? S.db i = some y ∧ y.userId = userId) ∧
    FoundTokens S t (.resetPassword userId requestId) userId gone ∧
    ws = .update (.reset { x with usedAt := some now })
      :: .update (.user { u with passwordHash })
      :: closed.map (fun y => .update (.reset { y with usedAt := some now }))
      ++ gone.map fun i => .erase (.token i)

-- ============================================================= the sites

/-- What a commit at a site does. -/
def Effect (cfg : Config) (t : Tid) (s : Site) (ws : List (Write Row Key))
    (S : AState) : Prop :=
  match s with
  | .register email => Registers cfg t email ws S
  | .withdrawRegistrationCode pendingId codeHash =>
      Withdraws cfg t pendingId codeHash ws S
  | .dropExpired pendingId => ws = [] ∨ (Drops ws S ∧ ws = [.erase (.pending pendingId)])
  | .recordFailedRegistrationAttempt pendingId codeHash =>
      RecordsRegistration cfg t pendingId codeHash ws S
  | .verifyRegistration email pendingId codeHash =>
      Verifies cfg t email pendingId codeHash ws S
  | .resendRegistrationCode email => Resends cfg t email ws S
  | .createToken userId tokenId => Opens t userId tokenId ws S
  | .refresh tokenId nextTokenId => Rotates t tokenId nextTokenId ws S
  | .logout tokenId => ws = [] ∨ ∃ x, token? S.db tokenId = some x ∧
      ws = [.erase (.token tokenId)]
  | .forgotPassword userId => Requests cfg t userId ws S
  | .withdrawReset requestId =>
      IssuedReset S t requestId ∧ (ws = [] ∨ ClosesReset requestId ws S)
  | .recordFailedResetAttempt requestId => RecordsReset cfg t requestId ws S
  | .resetPassword userId requestId => Resets cfg t userId requestId ws S
  | _ => ws = []

/-- A thread commits for the request it serves, at the sites of that
request. -/
def OwnSite (S : AState) (t : Tid) (s : Site) : Prop :=
  ∃ q, S.asked t = [q] ∧ (t, q) ∈ S.live ∧ s.servedBy q = true

/-- A test compares what the request was given with a hash the thread read.
A code is sent by the thread that issued it. -/
def Enters (cfg : Config) (t : Tid) (s : Site) (S : AState) : Prop :=
  match s with
  | .sendRegistrationCode pendingId codeHash =>
      named S t = [] ∧ Issued S t pendingId codeHash
  | .sendResetCode requestId => named S t = [] ∧ IssuedReset S t requestId
  | .testRegistrationCode pendingId codeHash ok => named S t = [] ∧ ∃ email code read,
      S.asked t = [.verifyRegistration email code] ∧ ok = codeHash.accepts (.text code) ∧
      Looked S t (.findPending email) (fun d => pending? d pendingId = some read) ∧
      read.codeHash = codeHash ∧ read.attemptCount < cfg.registration.maxAttempts
  | .testResetCode requestId ok => named S t = [] ∧ ∃ email code newPassword userId read,
      S.asked t = [.resetPassword email code newPassword] ∧
      ok = read.codeHash.accepts (.text code) ∧
      Looked S t (.findReset userId) (fun d => reset? d requestId = some read) ∧
      read.usedAt = none ∧
      read.attemptCount < cfg.passwordReset.maxAttempts
  | _ => True

/-- A request that consumes something did so exactly where it succeeds. -/
def Finishes (t : Tid) (r : Except Error Res) (S : AState) : Prop :=
  match S.asked t, r with
  | [.verifyRegistration email _], .ok _ =>
      ∃ pendingId codeHash, marks S t = [.verifyRegistration email pendingId codeHash]
  | [.verifyRegistration _ _], .error _ => marks S t = []
  | [.resetPassword _ _ _], .ok _ =>
      ∃ userId requestId, marks S t = [.resetPassword userId requestId]
  | [.resetPassword _ _ _], .error _ => marks S t = []
  | [.refresh (.refresh _ jti _)], .ok _ => ∃ nextTokenId, marks S t = [.refresh jti nextTokenId]
  | [.refresh _], .error _ => marks S t = []
  | _, _ => True

/-- A state in which the authentication side has done nothing. -/
structure Begins (S : AState) : Prop where
  unused : Unused S.db S.nextId
  locks : S.locks = []
  opens : S.opens = []
  live : S.live = []
  trace : S.trace = []

/-- The contract of the authentication side, for a run from a given
state. -/
def contract (cfg : Config) (start : AState) : AContract where
  start
  arrives := fun _ _ => True
  commits := fun t s ws S => Effect cfg t s ws S ∧ OwnSite S t s
  enters := Enters cfg
  calls := fun _ _ _ _ => True
  finishes := Finishes

end FastRep.Auth
