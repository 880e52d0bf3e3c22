import LabTether.GoStrings
import LabTether.Rows

/-!
Users, sign-in sessions and API keys as the authentication store keeps them
(`postgres_auth_store.go`, `postgres_apikeys.go`, `internal/auth`). The store trims the ids of
users that it is given. Session ids are generated and never given by a client; they are
numbers here. Roles are stored in normalized form. What bcrypt, the one-time codes and the
encryption of their secrets answer are inputs.
-/
namespace LabTether.SignIn

open GoStrings

inductive Role
  | owner
  | admin
  | operator
  | viewer
deriving DecidableEq

def Role.rank : Role → ℕ
  | .owner => 3
  | .admin => 2
  | .operator => 1
  | .viewer => 0

def hasAdminPrivileges : Role → Bool
  | .owner => true
  | .admin => true
  | _ => false

def hasWritePrivileges : Role → Bool
  | .viewer => false
  | _ => true

def lowerRole (a b : Role) : Role := if b.rank < a.rank then b else a

theorem rank_lowerRole (a b : Role) : (lowerRole a b).rank = min a.rank b.rank := by
  unfold lowerRole
  split_ifs with h
  all_goals omega

inductive AuthProvider
  | local
  | oidc
deriving DecidableEq

structure User where
  username : String
  role : Role
  authProvider : AuthProvider
  passwordHash : String
  totpSecret : Option String
  totpVerifiedAt : Option ℕ
  recoveryCodes : List String
deriving DecidableEq

def User.has2FA (u : User) : Bool := u.totpSecret.isSome && u.totpVerifiedAt.isSome

structure Session where
  (userID tokenHash : String)
  expiresAt : ℕ
deriving DecidableEq

structure APIKey where
  secretHash : String
  role : Role
  (scopes allowedAssets : List String)
  expiresAt : Option ℕ
  createdBy : String

structure Db where
  users : Rows String User
  sessions : Rows ℕ Session
  keys : Rows String APIKey

structure Crypto where
  checkPassword : String → String → Bool
  hashPassword : String → String
  decryptTOTPSecret : String → Option String
  validateTOTPCode : String → String → ℕ → Bool
  checkRecoveryCode : String → String → Bool

section

variable (db : Db) (id : String)

def getUserByID : Option User := db.users.get (trimSpace id)

def updateUser (f : User → User) : Db :=
  match getUserByID db id with
  | none => db
  | some u => { db with users := db.users.write (trimSpace id) (some (f u)) }

def updateUserRole (role : Role) : Db :=
  updateUser db id fun u => { u with role := role }

def updateUserPasswordHash (hash : String) : Db :=
  updateUser db id fun u => { u with passwordHash := hash }

variable (now : ℕ)

def confirmUserTOTP (codes : List String) : Db :=
  updateUser db id fun u => { u with totpVerifiedAt := some now, recoveryCodes := codes }

def clearUserTOTP : Db :=
  updateUser db id fun u => { u with totpSecret := none, totpVerifiedAt := none, recoveryCodes := [] }

def updateUserRecoveryCodes (codes : List String) : Db :=
  updateUser db id fun u => { u with recoveryCodes := codes }

/-- The recovery codes without the first that matches, if one does. -/
def consumeRecoveryCode (crypto : Crypto) (id code : String) : Option Db :=
  match getUserByID db id with
  | none => none
  | some u =>
    match u.recoveryCodes.findIdx? (crypto.checkRecoveryCode code) with
    | none => none
    | some i => some (updateUser db id fun u => { u with recoveryCodes := u.recoveryCodes.eraseIdx i })

def sessionsOf : List ℕ :=
  db.sessions.select fun _ r => decide (r.userID = trimSpace id)

def listSessionsByUserID (id : String) : List ℕ :=
  db.sessions.select fun _ r => decide (r.userID = trimSpace id ∧ now < r.expiresAt)

def validateSession (tokenHash : String) : Option (ℕ × Session) :=
  (db.sessions.select fun _ r => decide (r.tokenHash = tokenHash ∧ now < r.expiresAt)).head?.bind
    fun i => (db.sessions.get i).map fun r => (i, r)

def deleteSessions (ids : List ℕ) : Db := { db with sessions := db.sessions.deleteAll ids }

def deleteSession (i : ℕ) : Db := deleteSessions db [i]

def deleteSessionsByUserID : Db := deleteSessions db (sessionsOf db id)

def deleteUser : Db :=
  { deleteSessionsByUserID db id with users := db.users.write (trimSpace id) none }

/-- The sessions that `revokeOtherUserSessions` deletes: all but the one of the cookie. -/
def otherUserSessions (id : String) (cookie : Option String) : List ℕ :=
  match cookie with
  | none => sessionsOf db id
  | some tokenHash => (listSessionsByUserID db now id).filter fun i =>
      (db.sessions.get i).any fun r => r.tokenHash ≠ tokenHash

def revokeOtherUserSessions (id : String) (cookie : Option String) : Db :=
  deleteSessions db (otherUserSessions db now id cookie)

end

section

variable {db : Db}

@[simp] theorem sessions_updateUser (id : String) (f : User → User) :
    (updateUser db id f).sessions = db.sessions := by
  unfold updateUser
  cases getUserByID db id with
  | _ => rfl

@[simp] theorem keys_updateUser (id : String) (f : User → User) :
    (updateUser db id f).keys = db.keys := by
  unfold updateUser
  cases getUserByID db id with
  | _ => rfl

theorem isSome_updateUser (id : String) (f : User → User) (u : String) :
    ((updateUser db id f).users.get u).isSome = (db.users.get u).isSome := by
  unfold updateUser
  rcases hu : getUserByID db id with _ | user
  · rfl
  rw [Rows.get_write]
  split_ifs with heq
  · rw [heq, show db.users.get (trimSpace id) = some user from hu]
    rfl
  · rfl

theorem mem_sessionsOf {id : String} {i : ℕ} :
    i ∈ sessionsOf db id ↔ ∃ r, db.sessions.get i = some r ∧ r.userID = trimSpace id := by
  simp [sessionsOf, Rows.mem_select]

end

end LabTether.SignIn
