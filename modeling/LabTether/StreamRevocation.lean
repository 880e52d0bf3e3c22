import LabTether.StreamPrincipals
import LabTether.Transition

/-!
The requests that delete sign-in sessions, users or API keys or reduce their rights
(`auth_handlers.go`, `auth_password_handlers.go`, `auth_2fa_handlers.go`,
`auth_user_handlers.go`, `apikey_handlers.go`, `auth_oidc_identity.go`), one after the other and
with store calls that succeed. Most of them end with `RevokeStreams`. A change of the own
password and the changes of the own second factor delete the other sessions of the user and do
not: what is registered under those sessions stays. Every request comes with the time at which
it is handled.
-/
namespace LabTether.SignIn

open GoStrings

section

/-- The principal of a request, with the hash of its session cookie. -/
structure Caller where
  userID : String
  role : Role
  cookie : Option String
  isAPIKey : Bool

variable (crypto : Crypto) (now : ℕ) (h : Hub)

def handleAuthLogout (cookie : Option String) : Hub :=
  match cookie.bind (validateSession h.db now) with
  | none => h
  | some (i, _) => revokeStreamPrincipals [.session i] { h with db := deleteSession h.db i }

variable (caller : Caller)

/-- The shape of the changes that a user makes to the own account: `accept` checks the request
against the user and gives the store after it. -/
def selfService (accept : User → Option Db) (update : Db → Db) : Hub :=
  match (getUserByID h.db caller.userID).bind accept with
  | none => h
  | some db => { h with db := update (revokeOtherUserSessions db now caller.userID caller.cookie) }

def minPasswordLength : ℕ := 8

def maxPasswordLength : ℕ := 256

def passwordLengthOK (password : String) : Bool :=
  decide (minPasswordLength ≤ password.utf8ByteSize ∧ password.utf8ByteSize ≤ maxPasswordLength)

def acceptPassword (current new : String) (u : User) : Option Db :=
  if current ≠ "" ∧ passwordLengthOK new ∧ u.authProvider = .local ∧
      crypto.checkPassword current u.passwordHash then some h.db
  else none

def handleChangePassword (current new : String) : Hub :=
  selfService now h caller (acceptPassword crypto h current new)
    fun db => updateUserPasswordHash db caller.userID (crypto.hashPassword new)

variable (code : String)

def acceptSetupCode (u : User) : Option Db :=
  if trimSpace code = "" ∨ u.totpVerifiedAt.isSome then none
  else
    (u.totpSecret.bind crypto.decryptTOTPSecret).bind fun secret =>
      if crypto.validateTOTPCode secret (trimSpace code) now then some h.db else none

def handle2FAVerify (recoveryCodes : List String) : Hub :=
  selfService now h caller (acceptSetupCode crypto now h code)
    fun db => confirmUserTOTP db caller.userID now recoveryCodes

/-- A code of the second factor, or else a recovery code, which is spent. -/
def acceptSecondFactor (u : User) : Option Db :=
  if trimSpace code = "" ∨ u.has2FA = false then none
  else
    (u.totpSecret.bind crypto.decryptTOTPSecret).bind fun secret =>
      if crypto.validateTOTPCode secret (trimSpace code) now then some h.db
      else consumeRecoveryCode h.db crypto caller.userID (trimSpace code)

def handle2FADisable : Hub :=
  selfService now h caller (acceptSecondFactor crypto now h caller code)
    fun db => clearUserTOTP db caller.userID

def handle2FARecoveryCodes (recoveryCodes : List String) : Hub :=
  selfService now h caller (acceptSecondFactor crypto now h caller code)
    fun db => updateUserRecoveryCodes db caller.userID recoveryCodes

/-- The user's keys and those of the API keys that the user created. -/
def userStreamKeys (db : Db) (userID : String) : List PrincipalKey :=
  streamActorKey userID ::
    (db.keys.select fun _ key => decide (key.createdBy = userID)).map fun id =>
      streamActorKey (apiKeyActor id)

def revokeUserStreamsIfDemoted (userID : String) (oldRole newRole : Role) (h : Hub) : Hub :=
  if (hasWritePrivileges oldRole && !hasWritePrivileges newRole) ||
      (hasAdminPrivileges oldRole && !hasAdminPrivileges newRole) then
    revokeStreamPrincipals (userStreamKeys h.db userID) h
  else h

variable (id : String)

def callerMayManageUser (target : User) : Bool :=
  decide (caller.userID = id) || !hasAdminPrivileges target.role || decide (caller.role = .owner)

def callerMayGrantRole (role : Role) : Bool :=
  !hasAdminPrivileges role || decide (caller.role = .owner)

def resetPassword (u : User) (role : Role) (password : String) : Hub :=
  if role = .owner ∧ caller.userID ≠ id then h
  else if u.username = "" ∨ 64 < u.username.utf8ByteSize ∨ passwordLengthOK password = false then h
  else
    revokeStreamPrincipals [streamActorKey id] { h with
      db := updateUserPasswordHash (deleteSessionsByUserID h.db id) id (crypto.hashPassword password) }

/-- `PATCH /auth/users/`: a new role, a new password or both. -/
def handleAuthUserActions (path : String) (role : Option Role) (password : Option String) : Hub :=
  let id := trimSpace path
  if id = "" ∨ caller.isAPIKey ∨ (role = none ∧ password = none) then h
  else
    match getUserByID h.db id with
    | none => h
    | some u =>
      if callerMayManageUser caller id u = false then h
      else
        match role with
        | none => password.elim h (resetPassword crypto h caller id u u.role)
        | some new =>
          if u.role = .owner ∨ new = .owner ∨
              (hasAdminPrivileges u.role = false ∧ callerMayGrantRole caller new = false) then h
          else
            let h' := revokeUserStreamsIfDemoted id u.role new
              { h with db := updateUserRole h.db id new }
            password.elim h' (resetPassword crypto h' caller id u new)

def removeUser : Hub :=
  revokeStreamPrincipals (userStreamKeys h.db id) { h with db := deleteUser h.db id }

def handleDeleteUser (path : String) : Hub :=
  let id := trimSpace path
  if id = "" ∨ caller.isAPIKey ∨ caller.userID = id then h
  else
    match getUserByID h.db id with
    | none => h
    | some u =>
      if u.role = .owner ∨ callerMayManageUser caller id u = false then h else removeUser h id

def handleDeleteOwnAccount : Hub :=
  match getUserByID h.db caller.userID with
  | none => h
  | some u => if u.role = .owner then h else removeUser h caller.userID

/-- The path is not trimmed after its suffix is cut. -/
def handleUserSessions (userID : String) : Hub :=
  if userID = "" ∨ caller.isAPIKey ∨
      (getUserByID h.db userID).any (fun u => !callerMayManageUser caller (trimSpace userID) u) then h
  else
    revokeStreamPrincipals [streamActorKey userID] { h with db := deleteSessionsByUserID h.db userID }

def requireAPIKeyManagement : Bool :=
  match h.db.keys.get id with
  | none => true
  | some key => !hasAdminPrivileges key.role || decide (caller.role = .owner) ||
      (trimSpace key.createdBy ≠ "" && trimSpace key.createdBy = caller.userID)

structure APIKeyUpdate where
  name : Option String
  (scopes allowedAssets : Option (List String))
  expiresAt : Option (Option ℕ)
  /-- What the checks of the fields say. -/
  valid : Bool

variable (update : APIKeyUpdate)

def APIKeyUpdate.isEmpty : Bool :=
  update.name.isNone && update.scopes.isNone && update.allowedAssets.isNone && update.expiresAt.isNone

def APIKeyUpdate.apply (key : APIKey) : APIKey :=
  { key with
    scopes := update.scopes.getD key.scopes
    allowedAssets := update.allowedAssets.getD key.allowedAssets
    expiresAt := update.expiresAt.getD key.expiresAt }

def handleAPIKeyUpdate : Hub :=
  if requireAPIKeyManagement h caller id = false ∨ update.valid = false then h
  else if update.isEmpty then revokeStreamPrincipals [streamActorKey (apiKeyActor id)] h
  else
    match h.db.keys.get id with
    | none => h
    | some key => revokeStreamPrincipals [streamActorKey (apiKeyActor id)] { h with
        db := { h.db with keys := h.db.keys.write id (some (update.apply key)) } }

def handleAPIKeyDelete : Hub :=
  if requireAPIKeyManagement h caller id = false then h
  else revokeStreamPrincipals [streamActorKey (apiKeyActor id)] { h with
    db := { h.db with keys := h.db.keys.write id none } }

/-- A sign-in through the identity provider brings the role of the user up to date. -/
def resolveOIDCUser (desiredRole : Role) : Hub :=
  match getUserByID h.db id with
  | none => h
  | some u =>
    if desiredRole ≠ u.role ∧ u.role ≠ .owner then
      revokeUserStreamsIfDemoted id u.role desiredRole
        { h with db := updateUserRole h.db id desiredRole }
    else h

inductive Request
  | logout (cookie : Option String)
  | changePassword (caller : Caller) (current new : String)
  | verify2FA (caller : Caller) (code : String) (recoveryCodes : List String)
  | disable2FA (caller : Caller) (code : String)
  | newRecoveryCodes (caller : Caller) (code : String) (recoveryCodes : List String)
  | updateUser (caller : Caller) (path : String) (role : Option Role) (password : Option String)
  | deleteUser (caller : Caller) (path : String)
  | deleteOwnAccount (caller : Caller)
  | revokeSessions (caller : Caller) (userID : String)
  | updateAPIKey (caller : Caller) (id : String) (update : APIKeyUpdate)
  | deleteAPIKey (caller : Caller) (id : String)
  | signInOIDC (id : String) (desiredRole : Role)

/-- One request, handled at a time. -/
def serve (request : ℕ × Request) : Hub :=
  match request with
  | (now, .logout cookie) => handleAuthLogout now h cookie
  | (now, .changePassword caller current new) => handleChangePassword crypto now h caller current new
  | (now, .verify2FA caller code codes) => handle2FAVerify crypto now h caller code codes
  | (now, .disable2FA caller code) => handle2FADisable crypto now h caller code
  | (now, .newRecoveryCodes caller code codes) =>
    handle2FARecoveryCodes crypto now h caller code codes
  | (_, .updateUser caller path role password) =>
    handleAuthUserActions crypto h caller path role password
  | (_, .deleteUser caller path) => handleDeleteUser h caller path
  | (_, .deleteOwnAccount caller) => handleDeleteOwnAccount h caller
  | (_, .revokeSessions caller userID) => handleUserSessions h caller userID
  | (_, .updateAPIKey caller id update) => handleAPIKeyUpdate h caller id update
  | (_, .deleteAPIKey caller id) => handleAPIKeyDelete h caller id
  | (_, .signInOIDC id role) => resolveOIDCUser h id role

end

end LabTether.SignIn
