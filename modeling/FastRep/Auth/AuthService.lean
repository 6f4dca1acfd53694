/-
`AuthService`: registration with a mailed code, sessions of rotated refresh
tokens, and password recovery.

Codes, ids and salts that the source draws inside a transaction callback
are drawn right before the transaction here: they are fresh either way,
and nothing reads them earlier. Email addresses are normalized already.

# How a method is written

A method with a transaction has the body of its callback as a definition of
its own (`registerTransaction`, `refreshTransaction` and so on), and what its
`catch` makes of an error as another (`registerFailed`, `verificationError`).
The method puts these together in the order of the source, with its reads
before the transaction and its mail after it. Where a callback returns what
the method is to do next, the transaction returns it here too: `none` or a
row, and the error to be thrown.

A comparison with a stored hash is a named step of the run, and so is the
sending of a code, as guesses and mails are counted.
-/
import FastRep.Auth.Services
import Mathlib.Data.List.Sort

namespace FastRep.Auth

open FastRep.Txn

def accessTokenTtlSeconds : Nat := 15 * 60

def refreshTokenTtlSeconds : Nat := 30 * 24 * 60 * 60

def invalidResetCode : Error := badRequest "Invalid or expired password reset code"

def invalidRegistrationCode : Error :=
  badRequest "Invalid or expired registration verification code"

def emailTaken : Error := conflict "A user with this email already exists"

-- ============================================================== results

structure RegistrationPendingResult where
  email : String
  resendAvailableInSeconds : Nat
  deriving DecidableEq, Repr

structure TokenPair where
  accessToken : Jwt
  refreshToken : Jwt
  deriving DecidableEq, Repr

structure PublicUser where
  id : Id
  fullName : String
  email : String
  language : String
  createdAt : Time
  deriving DecidableEq, Repr

structure AuthenticationResult where
  user : PublicUser
  tokens : TokenPair
  deriving DecidableEq, Repr

/-- `publicUserSelect`. -/
def toPublicUser (r : User) : PublicUser where
  id := r.id
  fullName := r.fullName
  email := r.email
  language := r.language
  createdAt := r.createdAt

def addMinutes (date : Time) (minutes : Nat) : Time := date + minutes * 60000

def addHours (date : Time) (hours : Nat) : Time := date + hours * 60 * 60000

/-- `Math.max(0, Math.ceil((lastSentAt + cooldown - now) / 1000))`. -/
def registrationResendAvailableInSeconds (lastSentAt now cooldownSeconds : Nat) : Nat :=
  (lastSentAt + cooldownSeconds * 1000 - now + 999) / 1000

def registrationPendingResult (email : String) (lastSentAt now cooldownSeconds : Nat) :
    RegistrationPendingResult where
  email
  resendAvailableInSeconds :=
    registrationResendAvailableInSeconds lastSentAt now cooldownSeconds

-- =============================================================== tokens

structure PreparedTokenPair where
  tokens : TokenPair
  tokenId : Id
  tokenHash : Hash
  expiresAt : Time

def signTokenPair (userId refreshTokenId : Id) : Async TokenPair := do
  let accessIssuedAt ← Prog.clock
  let refreshIssuedAt ← Prog.clock
  pure {
    accessToken := .access userId (accessIssuedAt / 1000 + accessTokenTtlSeconds)
    refreshToken := .refresh userId refreshTokenId
      (refreshIssuedAt / 1000 + refreshTokenTtlSeconds) }

def prepareTokenPair (userId : Id) : Async PreparedTokenPair := do
  let tokenId ← randomUUID
  let tokens ← signTokenPair userId tokenId
  let tokenHash ← hash (.token tokens.refreshToken)
  let now ← Prog.clock
  pure { tokens, tokenId, tokenHash, expiresAt := now + refreshTokenTtlSeconds * 1000 }

/-- The row of a prepared token. -/
def newToken (id userId : Id) (tokenHash : Hash) (expiresAt : Time) : RefreshToken where
  id
  userId
  tokenHash
  expiresAt

def createTokenPair (userId : Id) : Async TokenPair := do
  let prepared ← prepareTokenPair userId
  transaction (.createToken userId prepared.tokenId)
    (insertRow (.token (newToken prepared.tokenId userId prepared.tokenHash
      prepared.expiresAt)))
  pure prepared.tokens

/-- `verifyRefreshToken`: the user and the id of the token. -/
def verifyRefreshToken (token : Jwt) : Async (Id × Id) :=
  match token with
  | .refresh sub jti exp => do
      let now ← Prog.clock
      if now / 1000 < exp then
        pure (sub, jti)
      else
        .throw (unauthorized "Invalid or expired refresh token")
  | _ => .throw (unauthorized "Invalid or expired refresh token")

-- ========================================================= registration

structure RegisterDto where
  email : String
  fullName : String
  password : String
  language : Option String
  deriving DecidableEq, Repr

/-- The row `register` creates. -/
def newPending (cfg : Config) (dto : RegisterDto) (id : Id) (passwordHash codeHash : Hash)
    (now : Time) : PendingRegistration where
  id
  email := dto.email
  passwordHash
  fullName := dto.fullName
  language := dto.language.getD "en"
  codeHash
  expiresAt := addMinutes now cfg.registration.codeTtlMinutes
  attemptCount := 0
  lastSentAt := now
  pendingExpiresAt := addHours now cfg.registration.pendingTtlHours

/-- Create the row; `none` says that its code is to be sent. -/
def createPending (r : PendingRegistration) : InTransaction (Option Time) := do
  insertRow (.pending r)
  pure none

/-- The transaction of `register`: the last send time of a registration
that is pending already, or a new one. -/
def registerTransaction (email : String) (now : Time) (created : PendingRegistration) :
    InTransaction (Option Time) := do
  let permanentUser ← select (userByEmail email)
  if permanentUser.isSome then
    .throw emailTaken
  else do
    let pending ← select (pendingByEmail email)
    match pending with
    | none => createPending created
    | some pending =>
        if pending.pendingExpiresAt ≤ now then do
          let deleted ← deleteRow (.pending pending.id)
            (onPending fun r => r.pendingExpiresAt ≤ now)
          if deleted ≠ 1 then do
            let currentPending ← select (pendingByEmail email)
            match currentPending.filter fun r => now < r.pendingExpiresAt with
            | some currentPending => pure (some currentPending.lastSentAt)
            | none => createPending created
          else
            createPending created
        else
          pure (some pending.lastSentAt)

def invalidatePendingRegistrationCode (cfg : Config) (pendingId : Id) (codeHash : Hash) :
    Async Unit := do
  let invalidatedAt ← Prog.clock
  let _ ← transaction (.withdrawRegistrationCode pendingId codeHash)
    (updateRow (.pending pendingId) (onPending fun r => r.codeHash = codeHash)
      (setPending fun r =>
        { r with expiresAt := invalidatedAt, attemptCount := cfg.registration.maxAttempts }))
  pure ()

/-- What follows a failed transaction of `register`. -/
def registerFailed (cfg : Config) (email : String) (error : Error) :
    Async RegistrationPendingResult :=
  if error.isConflict then
    .throw error
  else if error.isWriteConflict then do
    let user ← query (.findUser email) (userByEmail email)
    if user.isSome then
      .throw emailTaken
    else do
      let concurrentPending ← query (.findPending email) (pendingByEmail email)
      match concurrentPending with
      | none => .throw (serviceUnavailable "Registration is temporarily unavailable")
      | some concurrentPending => do
          let current ← Prog.clock
          if current < concurrentPending.pendingExpiresAt then do
            let now ← Prog.clock
            pure (registrationPendingResult email concurrentPending.lastSentAt now
              cfg.registration.resendCooldownSeconds)
          else
            .throw (serviceUnavailable "Registration is temporarily unavailable")
  else
    .throw (serviceUnavailable "Registration is temporarily unavailable")

/-- Send a registration code; one that cannot be sent is withdrawn. -/
def sendRegistrationCode (cfg : Config) (email code language : String) (pendingId : Id)
    (codeHash : Hash) : Async Unit := do
  let sent ← (Prog.enter (.sendRegistrationCode pendingId codeHash)
    (awaitOk (.sendRegistrationVerificationCode email code
      cfg.registration.codeTtlMinutes language))).attempt
  match sent with
  | .error _ => do
      invalidatePendingRegistrationCode cfg pendingId codeHash
      .throw (serviceUnavailable "Registration email is temporarily unavailable")
  | .ok _ => pure ()

def register (cfg : Config) (dto : RegisterDto) : Async RegistrationPendingResult := do
  let existingUser ← query (.findUser dto.email) (userByEmail dto.email)
  if existingUser.isSome then
    .throw emailTaken
  else do
    let now ← Prog.clock
    let passwordHash ← hash (.text dto.password)
    let code ← generateSixDigitCode
    let codeHash ← hash (.text code)
    let pendingId ← randomUUID
    let registration ← (transaction (.register dto.email)
      (registerTransaction dto.email now
        (newPending cfg dto pendingId passwordHash codeHash now))).attempt
    match registration with
    | .error e => registerFailed cfg dto.email e
    | .ok (some lastSentAt) =>
        pure (registrationPendingResult dto.email lastSentAt now
          cfg.registration.resendCooldownSeconds)
    | .ok none => do
        sendRegistrationCode cfg dto.email code (dto.language.getD "en") pendingId codeHash
        pure (registrationPendingResult dto.email now now
          cfg.registration.resendCooldownSeconds)

-- ========================================================= verification

def recordFailedRegistrationAttempt (cfg : Config) (pendingId : Id) (codeHash : Hash)
    (attemptCount : Nat) (attemptedAt : Time) : Async Unit :=
  transaction (.recordFailedRegistrationAttempt pendingId codeHash) do
    let updated ← updateRow (.pending pendingId)
      (onPending fun r => r.codeHash = codeHash && attemptedAt < r.expiresAt
        && attemptedAt < r.pendingExpiresAt && r.attemptCount = attemptCount)
      (setPending fun r => { r with attemptCount := r.attemptCount + 1 })
    if updated = 1 ∧ cfg.registration.maxAttempts ≤ attemptCount + 1 then do
      let _ ← updateRow (.pending pendingId)
        (onPending fun r => r.codeHash = codeHash
          && cfg.registration.maxAttempts ≤ r.attemptCount)
        (setPending fun r => { r with expiresAt := attemptedAt })
      pure ()
    else
      pure ()

/-- The user `verifyRegistration` creates from the row it read. -/
def verifiedUser (id : Id) (pending : PendingRegistration) (email : String)
    (now createdAt : Time) : User where
  id
  fullName := pending.fullName
  email
  passwordHash := pending.passwordHash
  language := pending.language
  emailVerifiedAt := some now
  createdAt

/-- The transaction of `verifyRegistration`. -/
def verifyTransaction (cfg : Config) (email : String) (now : Time)
    (pending : PendingRegistration) (userId : Id) (prepared : PreparedTokenPair) :
    InTransaction PublicUser := do
  let permanentUser ← select (userByEmail email)
  if permanentUser.isSome then
    .throw emailTaken
  else do
    let claimed ← deleteRow (.pending pending.id)
      (onPending fun r => r.email = email && r.codeHash = pending.codeHash
        && now < r.expiresAt && now < r.pendingExpiresAt
        && r.attemptCount < cfg.registration.maxAttempts)
    if claimed ≠ 1 then
      .throw invalidRegistrationCode
    else do
      let createdAt ← Tx.clock
      insertRow (.user (verifiedUser userId pending email now createdAt))
      insertRow (.token (newToken prepared.tokenId userId prepared.tokenHash
        prepared.expiresAt))
      pure (toPublicUser (verifiedUser userId pending email now createdAt))

/-- What `verifyRegistration` throws after its transaction failed. -/
def verificationError (error : Error) : Error :=
  match error with
  | .db .uniqueConstraint => emailTaken
  | .db .writeConflict => invalidRegistrationCode
  | e => e

def verifyRegistration (cfg : Config) (email code : String) : Async AuthenticationResult := do
  let now ← Prog.clock
  let pending ← query (.findPending email) (pendingByEmail email)
  match pending with
  | none => .throw invalidRegistrationCode
  | some pending =>
      if pending.pendingExpiresAt ≤ now then do
        let _ ← transaction (.dropExpired pending.id) (deleteRow (.pending pending.id)
          (onPending fun r => r.pendingExpiresAt ≤ now))
        .throw invalidRegistrationCode
      else if pending.expiresAt ≤ now
          ∨ cfg.registration.maxAttempts ≤ pending.attemptCount then
        .throw invalidRegistrationCode
      else do
        let codeIsValid ← verifyHash (.testRegistrationCode pending.id pending.codeHash)
          pending.codeHash (.text code)
        if !codeIsValid then do
          recordFailedRegistrationAttempt cfg pending.id pending.codeHash
            pending.attemptCount now
          .throw invalidRegistrationCode
        else do
          let userId ← randomUUID
          let prepared ← prepareTokenPair userId
          let created ← (transaction (.verifyRegistration email pending.id pending.codeHash)
            (verifyTransaction cfg email now pending userId prepared)).attempt
          match created with
          | .ok user => pure { user, tokens := prepared.tokens }
          | .error e => .throw (verificationError e)

-- =============================================================== resend

/-- The transaction of `resendRegistrationCode`: the row whose code was
replaced, and its language. -/
def resendTransaction (cfg : Config) (email : String) (now : Time) (codeHash : Hash) :
    InTransaction (Option (Id × String)) := do
  let permanentUser ← select (userByEmail email)
  if permanentUser.isSome then
    pure none
  else do
    let pending ← select (pendingByEmail email)
    match pending with
    | none => pure none
    | some pending =>
        if pending.pendingExpiresAt ≤ now then do
          let _ ← deleteRow (.pending pending.id)
            (onPending fun r => r.pendingExpiresAt ≤ now)
          pure none
        else do
          let retryAfterSeconds := registrationResendAvailableInSeconds
            pending.lastSentAt now cfg.registration.resendCooldownSeconds
          if 0 < retryAfterSeconds then
            .throw (.registrationCooldown retryAfterSeconds)
          else do
            let updated ← updateRow (.pending pending.id)
              (onPending fun r => r.email = email && r.lastSentAt = pending.lastSentAt
                && now < r.pendingExpiresAt)
              (setPending fun r => { r with
                codeHash
                expiresAt := addMinutes now cfg.registration.codeTtlMinutes
                attemptCount := 0
                lastSentAt := now })
            if updated ≠ 1 then
              .throw (.registrationCooldown cfg.registration.resendCooldownSeconds)
            else
              pure (some (pending.id, pending.language))

/-- What `resendRegistrationCode` throws after its transaction failed. -/
def resendError (cfg : Config) (error : Error) : Error :=
  if error.isTooManyRequests then error
  else if error.isWriteConflict then
    .registrationCooldown cfg.registration.resendCooldownSeconds
  else serviceUnavailable "Registration is temporarily unavailable"

def resendRegistrationCode (cfg : Config) (email : String) : Async Unit := do
  let user ← query (.findUser email) (userByEmail email)
  if user.isSome then
    pure ()
  else do
    let now ← Prog.clock
    let code ← generateSixDigitCode
    let codeHash ← hash (.text code)
    let pendingRegistration ← (transaction (.resendRegistrationCode email)
      (resendTransaction cfg email now codeHash)).attempt
    match pendingRegistration with
    | .error e => .throw (resendError cfg e)
    | .ok none => pure ()
    | .ok (some (id, language)) =>
        sendRegistrationCode cfg email code language id codeHash

-- ============================================================= sessions

def getUser (userId : Id) : Async PublicUser := do
  let user ← query (.findUserById userId) fun d => user? d userId
  match user with
  | none => .throw (unauthorized "Invalid session")
  | some user => pure (toPublicUser user)

def login (email password : String) : Async AuthenticationResult := do
  let user ← query (.findUser email) (userByEmail email)
  match user with
  | none => .throw (unauthorized "Invalid email or password")
  | some user => do
      let passwordIsValid ← verifyHash (.testPassword user.id user.passwordHash)
        user.passwordHash (.text password)
      if !passwordIsValid then
        .throw (unauthorized "Invalid email or password")
      else do
        let publicUser ← getUser user.id
        let tokens ← createTokenPair user.id
        pure { user := publicUser, tokens }

/-- The transaction of `refresh`. -/
def refreshTransaction (userId tokenId nextTokenId : Id) (nextTokenHash : Hash) :
    InTransaction Unit := do
  let deleted ← deleteRow (.token tokenId) (onToken fun r => r.userId = userId)
  if deleted ≠ 1 then
    .throw (unauthorized "Refresh token has already been used")
  else do
    let now ← Tx.clock
    insertRow (.token (newToken nextTokenId userId nextTokenHash
      (now + refreshTokenTtlSeconds * 1000)))

def refresh (refreshToken : Jwt) : Async TokenPair := do
  let payload ← verifyRefreshToken refreshToken
  let storedToken ← query (.findToken payload.2) fun d => token? d payload.2
  match storedToken with
  | none => .throw (unauthorized "Invalid or expired refresh token")
  | some storedToken => do
      let now ← Prog.clock
      if storedToken.userId ≠ payload.1 ∨ storedToken.expiresAt ≤ now then
        .throw (unauthorized "Invalid or expired refresh token")
      else do
        let hashIsValid ← verifyHash (.testToken storedToken.id storedToken.tokenHash)
          storedToken.tokenHash (.token refreshToken)
        if !hashIsValid then
          .throw (unauthorized "Invalid or expired refresh token")
        else do
          let nextTokenId ← randomUUID
          let tokens ← signTokenPair payload.1 nextTokenId
          let nextTokenHash ← hash (.token tokens.refreshToken)
          transaction (.refresh storedToken.id nextTokenId)
            (refreshTransaction payload.1 storedToken.id nextTokenId nextTokenHash)
          pure tokens

def logout (refreshToken : Jwt) : Async Unit := do
  let payload ← verifyRefreshToken refreshToken
  let storedToken ← query (.findToken payload.2) fun d => token? d payload.2
  match storedToken with
  | none => pure ()
  | some storedToken => do
      if storedToken.userId ≠ payload.1 then
        .throw (unauthorized "Invalid refresh token")
      else do
        let hashIsValid ← verifyHash (.testToken storedToken.id storedToken.tokenHash)
          storedToken.tokenHash (.token refreshToken)
        if !hashIsValid then
          .throw (unauthorized "Invalid refresh token")
        else do
          let _ ← transaction (.logout storedToken.id) (deleteRow (.token storedToken.id)
            (onToken fun r => r.userId = payload.1))
          pure ()

-- ============================================================= recovery

/-- The newest request of a user. -/
def latestReset (userId : Id) (d : Db Row) : Option PasswordResetRequest :=
  (((resets d).filter fun r => r.userId = userId).insertionSort fun l r =>
    r.createdAt ≤ l.createdAt).head?

/-- The row `forgotPassword` creates. -/
def newReset (cfg : Config) (id userId : Id) (codeHash : Hash) (now createdAt : Time) :
    PasswordResetRequest where
  id
  userId
  codeHash
  expiresAt := addMinutes now cfg.passwordReset.codeTtlMinutes
  attemptCount := 0
  usedAt := none
  createdAt

def resetCooldown : Error := tooManyRequests "Please wait before requesting another code"

/-- The transaction of `forgotPassword`. -/
def forgotPasswordTransaction (cfg : Config) (userId requestId : Id) (codeHash : Hash)
    (now : Time) : InTransaction Unit := do
  let latestRequest ← select (latestReset userId)
  let cooldownStartedAt : Int :=
    (now : Int) - (cfg.passwordReset.resendCooldownSeconds : Nat) * 1000
  if latestRequest.any fun r => cooldownStartedAt < r.createdAt then
    .throw resetCooldown
  else do
    let _ ← updateMany (onReset fun r => r.userId = userId && r.usedAt.isNone)
      (setReset fun r => { r with usedAt := some now })
    let createdAt ← Tx.clock
    insertRow (.reset (newReset cfg requestId userId codeHash now createdAt))

/-- What `forgotPassword` throws after its transaction failed. -/
def forgotPasswordError (error : Error) : Error :=
  if error.isTooManyRequests then error
  else if error.isWriteConflict then resetCooldown
  else serviceUnavailable "Password reset is temporarily unavailable"

def forgotPassword (cfg : Config) (email : String) : Async Unit := do
  let user ← query (.findUser email) (userByEmail email)
  match user with
  | none => pure ()
  | some user => do
      let now ← Prog.clock
      let code ← generateSixDigitCode
      let codeHash ← hash (.text code)
      let requestId ← randomUUID
      let request ← (transaction (.forgotPassword user.id)
        (forgotPasswordTransaction cfg user.id requestId codeHash now)).attempt
      match request with
      | .error e => .throw (forgotPasswordError e)
      | .ok _ => do
          let sent ← (Prog.enter (.sendResetCode requestId)
            (awaitOk (.sendPasswordResetCode email code
              cfg.passwordReset.codeTtlMinutes))).attempt
          match sent with
          | .error _ => do
              let usedAt ← Prog.clock
              let _ ← transaction (.withdrawReset requestId)
                (updateRow (.reset requestId) (onReset fun r => r.usedAt.isNone)
                  (setReset fun r => { r with usedAt := some usedAt }))
              .throw (serviceUnavailable "Password reset is temporarily unavailable")
          | .ok _ => pure ()

def recordFailedResetAttempt (cfg : Config) (requestId : Id) (attemptCount : Nat)
    (attemptedAt : Time) : Async Unit :=
  transaction (.recordFailedResetAttempt requestId) do
    let updated ← updateRow (.reset requestId)
      (onReset fun r => r.usedAt.isNone && attemptedAt < r.expiresAt
        && r.attemptCount = attemptCount)
      (setReset fun r => { r with attemptCount := r.attemptCount + 1 })
    if updated = 1 ∧ cfg.passwordReset.maxAttempts ≤ attemptCount + 1 then do
      let _ ← updateRow (.reset requestId)
        (onReset fun r => r.usedAt.isNone
          && cfg.passwordReset.maxAttempts ≤ r.attemptCount)
        (setReset fun r => { r with usedAt := some attemptedAt })
      pure ()
    else
      pure ()

/-- The transaction of `resetPassword`. -/
def resetPasswordTransaction (cfg : Config) (userId requestId : Id) (passwordHash : Hash)
    (now : Time) : InTransaction Unit := do
  let claimed ← updateRow (.reset requestId)
    (onReset fun r => r.userId = userId && r.usedAt.isNone && now < r.expiresAt
      && r.attemptCount < cfg.passwordReset.maxAttempts)
    (setReset fun r => { r with usedAt := some now })
  if claimed ≠ 1 then
    .throw invalidResetCode
  else do
    updateOrThrow (.user userId) (setUser fun r => { r with passwordHash })
    let _ ← updateMany (onReset fun r => r.userId = userId && r.id ≠ requestId
        && r.usedAt.isNone) (setReset fun r => { r with usedAt := some now })
    let _ ← deleteMany (onToken fun r => r.userId = userId)
    pure ()

def resetPassword (cfg : Config) (email code newPassword : String) : Async Unit := do
  let user ← query (.findUser email) (userByEmail email)
  match user with
  | none => .throw invalidResetCode
  | some user => do
      let request ← query (.findReset user.id) (latestReset user.id)
      let now ← Prog.clock
      match request with
      | none => .throw invalidResetCode
      | some request =>
          if request.usedAt.isSome ∨ request.expiresAt ≤ now
              ∨ cfg.passwordReset.maxAttempts ≤ request.attemptCount then
            .throw invalidResetCode
          else do
            let codeIsValid ← verifyHash (.testResetCode request.id) request.codeHash
              (.text code)
            if !codeIsValid then do
              recordFailedResetAttempt cfg request.id request.attemptCount now
              .throw invalidResetCode
            else do
              let passwordHash ← hash (.text newPassword)
              transaction (.resetPassword user.id request.id)
                (resetPasswordTransaction cfg user.id request.id passwordHash now)

end FastRep.Auth
