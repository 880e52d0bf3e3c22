import LabTether.SignIn
import LabTether.LockedPool

/-!
Administration of users (`auth_user_handlers.go`, `identity_audit.go`, `challenge.go`). A
request is authenticated first: the role of its caller is the one that is read then. Each store
call is one call of a task and may fail; tasks run in any order, with the lock of a user that
`LockUser` makes on demand. Ids of new users are random, so they are ids that no request has
named before; the ids that requests have named and the callers of the tasks are recorded for
that and are not part of the hub. Sign-ins and the end of sessions move the sessions from
outside. Passwords are hashed by a function that is an input. Requests are decoded, and role
texts are lower-cased and trimmed, before they come here.
-/
namespace LabTether.UserAdmin

open GoStrings SignIn LockedPool Pool

/-- Who makes a request, with the role it was authenticated with. -/
structure Caller where
  id : String
  role : Role
deriving DecidableEq

structure Accounts where
  db : Db
  nextSession : ℕ
  /-- The callers of the tasks. -/
  callers : ℕ → Option Caller
  /-- The user ids that requests have named. -/
  named : List String

/-- The calls that begin a revocation of sessions are told apart from the others. -/
inductive Call
  | plain
  | revokeSessions (userID : String)

/-- The calls of a request that can fail. -/
inductive Fallible
  | getUserByUsername
  | getUserByID
  | hashPassword
  | createUserWithRole
  | updateUserRole
  | deleteSessionsByUserID
  | updateUserPasswordHash
  | deleteUser
deriving DecidableEq

abbrev Program := LockedPool.Program Call String Accounts

def callerIsOwner (caller : Caller) : Bool := decide (caller.role = .owner)

def callerMayManageUser (caller : Caller) (targetID : String) (target : Role) : Bool :=
  decide (caller.id = targetID) || !hasAdminPrivileges target || callerIsOwner caller

def callerMayGrantRole (caller : Caller) (role : Role) : Bool :=
  !hasAdminPrivileges role || callerIsOwner caller

def validateLoginRequest (username password : String) : Bool :=
  decide (username ≠ "" ∧ username.utf8ByteSize ≤ 64 ∧ 8 ≤ password.utf8ByteSize ∧
    password.utf8ByteSize ≤ 256)

def usernameTaken (db : Db) (username : String) : Bool :=
  !(db.users.select fun _ u => decide (u.username = trimSpace username)).isEmpty

section

variable {α : Type} (failing : List Fallible)

/-- A store call that reads; `none` is an error. -/
def query (c : Fallible) (f : Db → α) : Program (Option α) :=
  act .plain fun d => (if c ∈ failing then none else some (f d.db), d)

def exec (c : Fallible) (f : Db → Db) : Program Bool :=
  act .plain fun d => if c ∈ failing then (false, d) else (true, { d with db := f d.db })

def newUser (username passwordHash : String) (role : Role) : User :=
  { username := trimSpace username, role, authProvider := .local, passwordHash
    totpSecret := none, totpVerifiedAt := none, recoveryCodes := [] }

/-- `CreateUserWithRole`, with the id that is generated. -/
def createUserWithRole (id : String) (user : User) : Program Unit :=
  act .plain fun d => ((),
    if .createUserWithRole ∈ failing ∨ usernameTaken d.db user.username ∨
        d.db.users.get id ≠ none ∨ id ∈ d.named ∨ trimSpace id ≠ id then d
    else { d with db := { d.db with users := d.db.users.write id (some user) } })

/-- `withAdminAuth`: the caller of the task and the user id that the request names. -/
def authenticate (t : ℕ) (callerID target : String) : Program (Option Caller) :=
  act .plain fun d =>
    match d.db.users.get callerID with
    | none => (none, d)
    | some user =>
      if hasAdminPrivileges user.role then
        (some ⟨callerID, user.role⟩, { d with
          callers := Function.update d.callers t (some ⟨callerID, user.role⟩)
          named := trimSpace target :: d.named })
      else (none, d)

end

section

variable (hashPassword : String → String) (t : ℕ) (caller : Caller) (failing : List Fallible)
  (id : String)

/-- `HandleAuthUsers` with POST; `none` is a text that is no role. -/
def handleCreateUser (username password : String) (role : Option Role) : Program Unit :=
  match role with
  | none => pure ()
  | some role =>
    if validateLoginRequest username password = false ∨ role = .owner ∨
        callerMayGrantRole caller role = false then pure ()
    else do
      match ← query failing .getUserByUsername (usernameTaken · username) with
      | some false =>
        if .hashPassword ∈ failing then pure ()
        else createUserWithRole failing id (newUser username (hashPassword password) role)
      | _ => pure ()

/-- The role part of an update: the role of the user after it, `none` if the request is over. -/
def changeRole (user : User) (role : Option (Option Role)) : Program (Option Role) :=
  match role with
  | none => pure (some user.role)
  | some none => pure none
  | some (some role) =>
    if user.role = .owner ∧ role ≠ .owner then pure none
    else if role = .owner then pure none
    else if hasAdminPrivileges user.role = false ∧ callerMayGrantRole caller role = false then
      pure none
    else do
      if ← exec failing .updateUserRole (updateUserRole · id role) then pure (some role)
      else pure none

def changePassword (user : User) (role : Role) (password : Option String) :
    Program Unit :=
  match password with
  | none => pure ()
  | some password =>
    if role = .owner ∧ caller.id ≠ id then pure ()
    else if validateLoginRequest user.username password = false then pure ()
    else if .hashPassword ∈ failing then pure ()
    else do
      if ← exec failing .deleteSessionsByUserID (deleteSessionsByUserID · id) then
        let _ ← exec failing .updateUserPasswordHash
          (updateUserPasswordHash · id (hashPassword password))
        pure ()
      else pure ()

/-- `HandleAuthUserActions` with PATCH. -/
def handleUpdateUser (role : Option (Option Role)) (password : Option String) :
    Program Unit :=
  underLock .plain t id do
    match ← query failing .getUserByID (getUserByID · id) with
    | some (some user) =>
      if callerMayManageUser caller id user.role then
        match ← changeRole caller failing id user role with
        | none => pure ()
        | some role => changePassword hashPassword caller failing id user role password
      else pure ()
    | _ => pure ()

def handleDeleteUser : Program Unit :=
  if caller.id = id then pure ()
  else underLock .plain t id do
    match ← query failing .getUserByID (getUserByID · id) with
    | some (some user) =>
      if user.role = .owner then pure ()
      else if callerMayManageUser caller id user.role then
        let _ ← exec failing .deleteSessionsByUserID (deleteSessionsByUserID · id)
        let _ ← exec failing .deleteUser (deleteUser · id)
        pure ()
      else pure ()
    | _ => pure ()

/-- `handleUserSessions` with DELETE takes the user id as it stands in the path. -/
def handleUserSessions (userID : String) : Program Unit :=
  if userID = "" then pure ()
  else underLock (.revokeSessions userID) t userID do
    match ← query failing .getUserByID (getUserByID · userID) with
    | none => pure ()
    | some found =>
      if found.any fun user => !callerMayManageUser caller (trimSpace userID) user.role then pure ()
      else
        let _ ← exec failing .deleteSessionsByUserID (deleteSessionsByUserID · userID)
        pure ()

end

/-- What a request asks for. `HandleAuthUserActions` trims the ids of users, but not in front of
`/sessions`. -/
inductive Action
  | createUser (id username password : String) (role : Option Role)
  | updateUser (id : String) (role : Option (Option Role)) (password : Option String)
  | deleteUser (id : String)
  | revokeSessions (userID : String)

structure Request where
  callerID : String
  action : Action
  failing : List Fallible

def Action.target : Action → String
  | .createUser _ _ _ _ => ""
  | .updateUser id _ _ => id
  | .deleteUser id => id
  | .revokeSessions userID => userID

def perform (hashPassword : String → String) (t : ℕ) (caller : Caller) (failing : List Fallible) :
    Action → Program Unit
  | .createUser id username password role =>
    handleCreateUser hashPassword caller failing id username password role
  | .updateUser id role password =>
    handleUpdateUser hashPassword t caller failing (trimSpace id) role password
  | .deleteUser id => handleDeleteUser t caller failing (trimSpace id)
  | .revokeSessions userID => handleUserSessions t caller failing userID

def program (hashPassword : String → String) (t : ℕ) (r : Request) : Program Unit := do
  match ← authenticate t r.callerID r.action.target with
  | none => pure ()
  | some caller => perform hashPassword t caller r.failing r.action

inductive Env
  | signIn (userID tokenHash : String) (expiresAt : ℕ)
  | endSessions (ids : List ℕ)

def Accounts.move : Env → Accounts → Accounts
  | .signIn userID tokenHash expiresAt, d =>
    if (d.db.users.get userID).isSome then
      { d with
        db := { d.db with
          sessions := d.db.sessions.write d.nextSession (some ⟨userID, tokenHash, expiresAt⟩) }
        nextSession := d.nextSession + 1 }
    else d
  | .endSessions ids, d => { d with db := deleteSessions d.db ids }

abbrev Site := Pool.State Call (LockedPool.Shared String Accounts) Unit

abbrev Op := Pool.Op Request Env

abbrev step (hashPassword : String → String) : Site → Op → Site :=
  State.step (LockedPool.system (program hashPassword) Accounts.move)

def initial (db : Db) (nextSession : ℕ) : Site :=
  ⟨LockedPool.start { db, nextSession, callers := fun _ => none, named := [] }, []⟩

end LabTether.UserAdmin
