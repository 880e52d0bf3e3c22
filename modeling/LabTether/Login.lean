import LabTether.SignIn
import LabTether.KeyedLock
import LabTether.Pool

/-!
Local sign-in next to changes of the credentials (`challenge.go`, `auth_handlers.go`,
`auth_2fa_handlers.go`, `auth_password_handlers.go`, `auth_user_handlers.go`,
`auth_session_helpers.go`). Every store call and every critical section is one call of a task,
and tasks run in any order; the lock of a user is the counted lock that `LockUser` makes on
demand. What the cryptographic functions and the access checks answer are inputs, and so are the
random tokens, which do not repeat. Sign-in through an identity provider, logout, changes of
roles, new users and the cleanup of what has expired move the state from outside. Stamps, and
the lists of the challenges that were issued and taken, of the sessions that sign-ins created
and of the changes that were completed are not part of the hub.
-/
namespace LabTether.Login

open GoStrings SignIn KeyedLock Pool Pool.Process

/-- A pending second step. The stamp counts the changes that were complete when the password was
checked. -/
structure Challenge where
  userID : String
  (expiresAt stamp : ℕ)

/-- A call of `LockUser`, with the task that made it. -/
structure Use where
  task : ℕ
  key : String
  place : Place

/-- A session of a sign-in: from a password alone, or with a challenge. -/
structure Creation where
  session : ℕ
  userID : String
  stamp : ℕ
  token : Option String
  /-- The second factor of the account was enabled. -/
  enabled : Bool

/-- A completed change of a user's credentials or sessions. -/
structure Change where
  userID : String
  /-- The cookie whose session the change keeps. -/
  retained : Option String
deriving DecidableEq

structure Shared where
  db : Db
  now : ℕ
  challenges : Rows String Challenge
  locks : Locks String
  nextSession : ℕ
  uses : List Use
  issued : List String
  taken : List (String × ℕ)
  created : List Creation
  changes : List Change

/-- The calls that begin a revocation of sessions are told apart from the others. -/
inductive Call
  | plain
  | revokeSessions (userID : String)

abbrev Program := Process Call Shared

def lockUser (n : Call) (t : ℕ) (userID : String) : Program (ℕ × ℕ) := do
  let (i, e) ← atomically n fun s => ((s.uses.length, (enter userID s.locks).1),
    { s with
      locks := (enter userID s.locks).2
      uses := s.uses ++ [⟨t, userID, .waiting (enter userID s.locks).1⟩] })
  await .plain fun s => (lock e s.locks).map fun locks =>
    ((), { s with locks, uses := s.uses.set i ⟨t, userID, .inside e⟩ })
  pure (i, e)

def unlockUser (t : ℕ) (userID : String) (i e : ℕ) : Program Unit := do
  atomically .plain fun s => ((),
    { s with locks := unlock e s.locks, uses := s.uses.set i ⟨t, userID, .leaving e⟩ })
  atomically .plain fun s => ((),
    { s with locks := leave userID e s.locks, uses := s.uses.set i ⟨t, userID, .out⟩ })

def underLock (n : Call) (t : ℕ) (userID : String) (body : Program Unit) : Program Unit := do
  let (i, e) ← lockUser n t userID
  body
  unlockUser t userID i e

def challengeTTL : ℕ := 300

def sessionDuration : ℕ := 86400

def Challenge.expired (now : ℕ) (c : Challenge) : Bool := decide (c.expiresAt < now)

/-- `ChallengeStore.Create`; the token is random. -/
def createChallenge (userID token : String) (stamp : ℕ) : Program Unit :=
  atomically .plain fun s => ((),
    if token ∈ s.issued then s
    else { s with
      issued := token :: s.issued
      challenges := s.challenges.write token (some ⟨userID, s.now + challengeTTL, stamp⟩) })

/-- `ChallengeStore.Validate` -/
def validateChallenge (token : String) : Program (Option String) :=
  atomically .plain fun s =>
    match s.challenges.get token with
    | none => (none, s)
    | some c =>
      if c.expired s.now then (none, { s with challenges := s.challenges.write token none })
      else (some c.userID, s)

/-- `ChallengeStore.Consume` -/
def consumeChallenge (t : ℕ) (token : String) : Program (Option Challenge) :=
  atomically .plain fun s =>
    match s.challenges.get token with
    | none => (none, s)
    | some c =>
      if c.expired s.now then (none, { s with challenges := s.challenges.write token none })
      else (some c, { s with
        challenges := s.challenges.write token none
        taken := (token, t) :: s.taken })

def revokeForUser (userID : String) : Program Unit :=
  atomically .plain fun s => ((), { s with
    challenges := s.challenges.deleteAll
      (s.challenges.select fun _ c => decide (c.userID = userID)) })

section

variable (crypto : Crypto)

def Shared.enabled (s : Shared) (userID : String) : Bool :=
  (s.db.users.get userID).any User.has2FA

def Shared.addSession (s : Shared) (session : Session) : Shared :=
  { s with
    db := { s.db with sessions := s.db.sessions.write s.nextSession (some session) }
    nextSession := s.nextSession + 1 }

variable (userID : String)

/-- `CompleteLogin`; the store refuses a session of a user who is gone. -/
def completeLogin (tokenHash : String) (stamp : ℕ) (token : Option String) : Program Unit :=
  atomically .plain fun s => ((),
    if (s.db.users.get userID).isNone then s
    else { s.addSession ⟨userID, tokenHash, s.now + sessionDuration⟩ with
      created := s.created ++ [⟨s.nextSession, userID, stamp, token, s.enabled userID⟩] })

def getUserByUsername (db : Db) (username : String) : Option String :=
  (db.users.select fun _ u => decide (u.username = trimSpace username)).head?

/-- The user's row, and how many changes were complete when it was read. -/
def readUser : Program (Option User × ℕ) :=
  read .plain fun s => (getUserByID s.db userID, s.changes.length)

def handleAuthLogin (t : ℕ) (username password token tokenHash : String) : Program Unit := do
  match ← read .plain fun s => getUserByUsername s.db username with
  | none => pure ()
  | some userID =>
    underLock .plain t userID do
      match ← readUser userID with
      | (none, _) => pure ()
      | (some user, stamp) =>
        if user.authProvider = .local ∧ crypto.checkPassword password user.passwordHash then
          if user.has2FA then createChallenge userID token stamp
          else completeLogin userID tokenHash stamp none
        else pure ()

def tryRecoveryCode (code : String) : Program Bool :=
  atomically .plain fun s =>
    match consumeRecoveryCode s.db crypto userID code with
    | none => (false, s)
    | some db => (true, { s with db })

/-- A code of the second factor, or else a recovery code. -/
def checkSecondFactor (user : User) (code : String) : Program Bool := do
  match user.totpSecret.bind crypto.decryptTOTPSecret with
  | none => pure false
  | some secret =>
    if ← read .plain fun s => crypto.validateTOTPCode secret code s.now then pure true
    else tryRecoveryCode crypto userID code

def handleLogin2FA (t : ℕ) (token code tokenHash : String) : Program Unit := do
  if trimSpace token = "" ∨ trimSpace code = "" then pure ()
  else
    match ← validateChallenge (trimSpace token) with
    | none => pure ()
    | some userID =>
      underLock .plain t userID do
        match ← consumeChallenge t (trimSpace token) with
        | none => pure ()
        | some c =>
          if c.userID ≠ userID then pure ()
          else
            match ← readUser userID with
            | (none, _) => pure ()
            | (some user, _) =>
              if ← checkSecondFactor crypto userID user (trimSpace code) then
                completeLogin userID tokenHash c.stamp (some (trimSpace token))
              else pure ()

def deleteEach : List ℕ → Program Unit
  | [] => pure ()
  | i :: sessions => do
    atomically .plain fun s => ((), { s with db := deleteSession s.db i })
    deleteEach sessions

/-- `revokeOtherUserSessions` -/
def revokeOthers (userID : String) (cookie : Option String) : Program Unit :=
  match cookie with
  | none => atomically .plain fun s => ((), { s with db := deleteSessionsByUserID s.db userID })
  | some tokenHash => do
    let sessions ← read .plain fun s => otherUserSessions s.db s.now userID (some tokenHash)
    deleteEach sessions

/-- What every change does once it is accepted: the pending challenges and the sessions go, then
the credential changes and the change is complete. -/
def applyChange (userID : String) (cookie : Option String) (f : ℕ → Db → Db) : Program Unit := do
  revokeForUser userID
  revokeOthers userID cookie
  atomically .plain fun s => ((),
    { s with db := f s.now s.db, changes := s.changes ++ [⟨trimSpace userID, cookie⟩] })

variable (t : ℕ) (cookie : String)

/-- A request that `withSelfServiceAuth` has admitted, under the lock of its user. -/
def selfService (body : String → User → Program Unit) : Program Unit := do
  match ← read .plain fun s => validateSession s.db s.now cookie with
  | none => pure ()
  | some (_, session) =>
    match ← read .plain fun s => getUserByID s.db session.userID with
    | none => pure ()
    | some _ =>
      underLock .plain t session.userID do
        match ← readUser session.userID with
        | (none, _) => pure ()
        | (some user, _) => body session.userID user

def handleChangePassword (current new : String) : Program Unit :=
  if current = "" ∨ new.utf8ByteSize < 8 ∨ 256 < new.utf8ByteSize then pure ()
  else selfService t cookie fun userID user =>
    if user.authProvider = .local ∧ crypto.checkPassword current user.passwordHash then
      applyChange userID (some cookie) fun _ db =>
        updateUserPasswordHash db userID (crypto.hashPassword new)
    else pure ()

def setUserTOTPSecret (db : Db) (id secret : String) : Db :=
  updateUser db id fun u => { u with totpSecret := some secret }

def handle2FASetup (secret : String) : Program Unit :=
  selfService t cookie fun userID user =>
    if user.has2FA then pure ()
    else atomically .plain fun s => ((), { s with db := setUserTOTPSecret s.db userID secret })

variable (code : String)

def handle2FAVerify (recoveryCodes : List String) : Program Unit :=
  if trimSpace code = "" then pure ()
  else selfService t cookie fun userID user => do
    if user.totpVerifiedAt.isSome then pure ()
    else
      match user.totpSecret.bind crypto.decryptTOTPSecret with
      | none => pure ()
      | some secret =>
        if ← read .plain fun s => crypto.validateTOTPCode secret (trimSpace code) s.now then
          applyChange userID (some cookie) fun now db => confirmUserTOTP db userID now recoveryCodes
        else pure ()

/-- The changes that ask for the second factor. -/
def withSecondFactor (f : String → Db → Db) : Program Unit :=
  if trimSpace code = "" then pure ()
  else selfService t cookie fun userID user => do
    if user.has2FA = false then pure ()
    else if ← checkSecondFactor crypto userID user (trimSpace code) then
      applyChange userID (some cookie) fun _ db => f userID db
    else pure ()

def handle2FADisable : Program Unit :=
  withSecondFactor crypto t cookie code fun userID db => clearUserTOTP db userID

def handle2FARecoveryCodes (recoveryCodes : List String) :
    Program Unit :=
  withSecondFactor crypto t cookie code fun userID db =>
    updateUserRecoveryCodes db userID recoveryCodes

def handleDeleteOwnAccount : Program Unit :=
  selfService t cookie fun userID user =>
    if user.role = .owner then pure ()
    else applyChange userID none fun _ db => deleteUser db userID

/-- `HandleAuthUserActions` with a new password. -/
def resetPassword (id password : String) (allowed : Bool) : Program Unit :=
  if trimSpace id = "" then pure ()
  else underLock .plain t (trimSpace id) do
    match ← readUser (trimSpace id) with
    | (none, _) => pure ()
    | (some _, _) =>
      if allowed then applyChange (trimSpace id) none fun _ db =>
        updateUserPasswordHash db (trimSpace id) (crypto.hashPassword password)
      else pure ()

def handleDeleteUser (id : String) (allowed : Bool) : Program Unit :=
  if trimSpace id = "" then pure ()
  else underLock .plain t (trimSpace id) do
    match ← readUser (trimSpace id) with
    | (none, _) => pure ()
    | (some user, _) =>
      if allowed = false ∨ user.role = .owner then pure ()
      else applyChange (trimSpace id) none fun _ db => deleteUser db (trimSpace id)

/-- `handleUserSessions` takes the user id as it stands in the path. -/
def handleUserSessions (userID : String) (allowed : Bool) : Program Unit :=
  if userID = "" then pure ()
  else underLock (.revokeSessions userID) t userID do
    match ← readUser userID with
    | (found, _) =>
      if found.isSome ∧ allowed = false then pure ()
      else applyChange userID none fun _ db => db

end

inductive Task
  | login (username password token tokenHash : String)
  | login2FA (token code tokenHash : String)
  | changePassword (cookie current new : String)
  | setup2FA (cookie secret : String)
  | verify2FA (cookie code : String) (recoveryCodes : List String)
  | disable2FA (cookie code : String)
  | recoveryCodes (cookie code : String) (recoveryCodes : List String)
  | deleteOwnAccount (cookie : String)
  | resetPassword (id password : String) (allowed : Bool)
  | deleteUser (id : String) (allowed : Bool)
  | revokeSessions (userID : String) (allowed : Bool)

inductive Env
  | tick (d : ℕ)
  | createUser (id : String) (user : User)
  | setRole (id : String) (role : Role)
  /-- A sign-in through an identity provider. -/
  | externalSession (userID tokenHash : String) (expiresAt : ℕ)
  | dropSessions (ids : List ℕ)
  | dropChallenges (tokens : List String)

def program (crypto : Crypto) (t : ℕ) : Task → Program Unit
  | .login username password token tokenHash =>
    handleAuthLogin crypto t username password token tokenHash
  | .login2FA token code tokenHash => handleLogin2FA crypto t token code tokenHash
  | .changePassword cookie current new => handleChangePassword crypto t cookie current new
  | .setup2FA cookie secret => handle2FASetup t cookie secret
  | .verify2FA cookie code recoveryCodes => handle2FAVerify crypto t cookie code recoveryCodes
  | .disable2FA cookie code => handle2FADisable crypto t cookie code
  | .recoveryCodes cookie code recoveryCodes =>
    handle2FARecoveryCodes crypto t cookie code recoveryCodes
  | .deleteOwnAccount cookie => handleDeleteOwnAccount t cookie
  | .resetPassword id password allowed => resetPassword crypto t id password allowed
  | .deleteUser id allowed => handleDeleteUser t id allowed
  | .revokeSessions userID allowed => handleUserSessions t userID allowed

/-- Ids of users are generated, and new users have no second factor. -/
def Shared.move : Env → Shared → Shared
  | .tick d, s => { s with now := s.now + d }
  | .createUser id user, s =>
    if trimSpace id = id ∧ s.db.users.get id = none ∧ user.has2FA = false then
      { s with db := { s.db with users := s.db.users.write id (some user) } }
    else s
  | .setRole id role, s => { s with db := updateUserRole s.db id role }
  | .externalSession userID tokenHash expiresAt, s =>
    if (s.db.users.get userID).isSome then s.addSession ⟨userID, tokenHash, expiresAt⟩ else s
  | .dropSessions ids, s => { s with db := deleteSessions s.db ids }
  | .dropChallenges tokens, s => { s with challenges := s.challenges.deleteAll tokens }

def system (crypto : Crypto) : System Call Shared Unit Task Env where
  program := program crypto
  release _ s := s
  move := Shared.move
  answer := ()

end LabTether.Login
