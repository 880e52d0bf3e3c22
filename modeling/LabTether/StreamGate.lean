import LabTether.StreamTickets
import LabTether.Pool

/-!
Requests for streams and event sockets next to the removal of their credentials
(`request_auth_middleware.go`, `session_stream_lifecycle.go`, `stream_principals.go`,
`browser_events.go`). Every store call and every critical section is one call of a task, and
tasks run in any order. A request checks its credential or ticket, registers a stream under each
of its keys (a persistent session and the session itself) or an event socket, and takes over the
connection; a removal deletes the credential and then sweeps what is registered. The mutex of a
registry entry is one lock per key. The lists of deleted and of finished credentials are not
part of the hub.
-/
namespace LabTether.StreamGate

open GoStrings SignIn Pool Pool.Process

/-- How far the cleanup of a stream request has come. -/
inductive Stage
  | serving
  | closing
  | unindexed
  | done
deriving DecidableEq

def Stage.indexed : Stage → Bool
  | .serving | .closing => true
  | .unindexed | .done => false

/-- `sessionStreamRequest` -/
structure Owner where
  entry : String
  principals : List PrincipalKey
  (closed cancelled : Bool)
  conn : Option ℕ
  stage : Stage

/-- `BrowserClient` -/
structure Client where
  principals : List PrincipalKey
  conn : ℕ
  registered : Bool

structure Shared where
  db : Db
  now : ℕ
  tickets : Rows String StreamTicket
  /-- The terminal and desktop sessions, and persistent sessions, that exist. -/
  records : List String
  owners : List Owner
  clients : List Client
  nextConn : ℕ
  closedConns : List ℕ
  locked : String → Bool
  (deleted finished : List PrincipalKey)

def Shared.start (db : Db) (tickets : Rows String StreamTicket) (now : ℕ) : Shared :=
  ⟨db, now, tickets, [], [], [], 0, [], fun _ => false, [], []⟩

def Shared.setOwner (s : Shared) (i : ℕ) (f : Owner → Owner) : Shared :=
  { s with owners := s.owners.modify i f }

def Shared.closeConn (s : Shared) (conn : Option ℕ) : Shared :=
  { s with closedConns := conn.toList ++ s.closedConns }

/-- A critical section of the entry of the owner; it waits for the mutex. -/
def Shared.underEntry {α : Type} (s : Shared) (i : ℕ) (look : Owner → α) (f : Owner → Owner) :
    Option (Option α × Shared) :=
  match s.owners[i]? with
  | none => some (none, s)
  | some o => if s.locked o.entry then none else some (some (look o), s.setOwner i f)

/-- The calls that register a stream or a socket are told apart from the others. -/
inductive Call
  | plain
  | register (principals : List PrincipalKey)

abbrev Program := Process Call Shared

section

variable (validScopes : List String → Bool)

def withAuth : Credential → Program (Option Principal)
  | .ownerToken => pure (some ⟨"owner", .owner, [], none, none⟩)
  | .cookie tokenHash => do
    match ← read .plain fun s => validateSession s.db s.now tokenHash with
    | none => pure none
    | some (i, session) =>
      let user ← read .plain fun s => getUserByID s.db session.userID
      pure (user.map fun u => ⟨session.userID, u.role, [], none, some i⟩)
  | .apiKey secretHash => do
    match ← read .plain fun s => (lookupAPIKeyByHash s.db secretHash).map fun p => (p, s.now) with
    | none => pure none
    | some ((id, key), now) =>
      if key.expired now ∨ validScopes key.scopes = false ∨ key.role = .owner then pure none
      else
        let role ← read .plain fun s => apiKeyCreatorCappedRole s.db key key.role
        pure (role.map fun r => ⟨apiKeyActor id, r, key.allowedAssets, some id, none⟩)

def ticketActive (ticket : StreamTicket) : Program Bool :=
  if trimSpace ticket.actorID = "owner" then pure true
  else
    match ticket.apiKeyID, ticket.authSessionID with
    | some id, _ => read .plain fun s => (s.db.keys.get id).any fun key =>
        !key.expired s.now && decide (ticket.role.rank ≤ key.role.rank)
    | none, some i => do
      let user ← read .plain fun s => getUserByID s.db ticket.actorID
      if user.any fun u => decide (ticket.role.rank ≤ u.role.rank) then
        read .plain fun s => (listSessionsByUserID s.db s.now ticket.actorID).contains i
      else pure false
    | none, none => pure false

/-- Take a ticket out of the store, and check the credential it was issued to. -/
def redeem (take : ℕ → Rows String StreamTicket → Option StreamTicket × Rows String StreamTicket) :
    Program (Option (List PrincipalKey)) := do
  match ← atomically .plain fun s =>
      ((take s.now s.tickets).1, { s with tickets := (take s.now s.tickets).2 }) with
  | none => pure none
  | some ticket =>
    let active ← ticketActive ticket
    pure (if active then some ticket.principals else none)

inductive StreamAuth
  | ticket (sessionID name : String)
  | credential (credential : Credential)

/-- What a request for the browser events presents: `HandleBrowserEvents` takes a ticket, a cookie
or the owner token, and `ServeAuthenticatedBrowserEvents` what the middleware has admitted. -/
inductive EventAuth
  | ticket (name : String)
  | cookie (tokenHash : String)
  | ownerToken
  | authenticated (credential : Credential)

def authStream : StreamAuth → Program (Option (List PrincipalKey))
  | .ticket sessionID name => redeem fun now tickets =>
      takeStreamTicket now (trimSpace sessionID) (trimSpace name) tickets
  | .credential credential => do
    let principal ← withAuth validScopes credential
    pure (principal.map fun p => streamPrincipalKeys p.actorID p.authSessionID)

def authEvents : EventAuth → Program (Option (List PrincipalKey))
  | .ticket name => redeem fun now tickets => takeEventTicket now (trimSpace name) tickets
  | .cookie tokenHash => do
    let session ← read .plain fun s => validateSession s.db s.now tokenHash
    pure (session.map fun p => [streamActorKey p.2.userID, .session p.1])
  | .ownerToken => pure (some [])
  | .authenticated credential => do
    match ← withAuth validScopes credential with
    | none => pure none
    | some p =>
      pure (if p.apiKeyID.isSome ∧ p.allowedAssets ≠ [] then none
        else some (streamPrincipalKeys p.actorID p.authSessionID))

end

section

variable (validScopes : List String → Bool) (id : String)

def lockEntry : Program Unit :=
  await .plain fun s =>
    if s.locked id then none
    else some ((), { s with locked := Function.update s.locked id true })

def unlockEntry : Program Unit :=
  atomically .plain fun s => ((), { s with locked := Function.update s.locked id false })

/-- The end of `Open`: unless a request around this one was cancelled, a new owner is indexed. -/
def register (principals : List PrincipalKey) (parents : List ℕ) :
    Program (Option ℕ) :=
  atomically (.register principals) fun s =>
    if parents.any fun i => s.owners[i]?.any Owner.cancelled then (none, s)
    else (some s.owners.length,
      { s with owners := s.owners ++ [⟨id, principals, false, false, none, .serving⟩] })

def newConn : Program ℕ :=
  atomically .plain fun s => (s.nextConn, { s with nextConn := s.nextConn + 1 })

def closeConn (conn : ℕ) : Program Unit :=
  atomically .plain fun s => ((), s.closeConn (some conn))

/-- The section of `Hijack`: an owner that was closed takes no connection. -/
def attach (conn i : ℕ) : Program Bool := do
  let open? ← await .plain fun s => s.underEntry i (fun o => !o.closed)
    fun o => if o.closed then o else { o with conn := some conn }
  pure (open?.getD false)

/-- `Hijack` on the owners of a request, from the outside in. -/
def attachAll (conn : ℕ) : List ℕ → Program Unit
  | [] => pure ()
  | i :: owners => do
    if ← attach conn i then attachAll conn owners else closeConn conn

def cleanup (i : ℕ) : Program Unit := do
  let conn ← await .plain fun s => s.underEntry i Owner.conn
    fun o => { o with closed := true, stage := .closing }
  atomically .plain fun s => ((), s.setOwner i fun o => { o with stage := .unindexed })
  atomically .plain fun s => ((), (s.closeConn conn.join).setOwner i
    fun o => { o with cancelled := true, stage := .done })

/-- Open the stream under each id, take over the connection, and clean up when it has ended. -/
def openStreams (principals : List PrincipalKey) : List String → List ℕ → Program Unit
  | [], owners => do
    let conn ← newConn
    attachAll conn owners
  | id :: ids, owners => do
    lockEntry id
    if ← read .plain fun s => s.records.contains id then
      match ← register id principals owners with
      | none => unlockEntry id
      | some i =>
        unlockEntry id
        openStreams principals ids (owners ++ [i])
        cleanup i
    else unlockEntry id

def persistentStreamKey : String := "persistent:" ++ id

def handleSessionStream (auth : StreamAuth) (persistentID : Option String) (sessionID : String) :
    Program Unit := do
  match ← authStream validScopes auth with
  | none => pure ()
  | some principals =>
    openStreams principals ((persistentID.map persistentStreamKey).toList ++ [sessionID]) []

def Shared.unregister (s : Shared) (j : ℕ) : Shared :=
  match s.clients[j]? with
  | none => s
  | some c =>
    if c.registered then
      { s.closeConn (some c.conn) with
        clients := s.clients.modify j fun c => { c with registered := false } }
    else s

def unregister (j : ℕ) : Program Unit := atomically .plain fun s => ((), s.unregister j)

def registerWithPrincipals (conn : ℕ) (principals : List PrincipalKey) : Program ℕ :=
  atomically (.register principals) fun s => (s.clients.length,
    { s with clients := s.clients ++ [⟨principals, conn, true⟩] })

def handleBrowserEvents (auth : EventAuth) : Program Unit := do
  match ← authEvents validScopes auth with
  | none => pure ()
  | some principals =>
    let conn ← newConn
    let j ← registerWithPrincipals conn principals
    unregister j

end

variable (keys : List PrincipalKey)

def collectOwners (s : Shared) : List ℕ :=
  (List.range s.owners.length).filter fun i => s.owners[i]?.any fun o =>
    o.stage.indexed && matchesAny keys o.principals

def collectClients (s : Shared) : List ℕ :=
  (List.range s.clients.length).filter fun j => s.clients[j]?.any fun c =>
    c.registered && matchesAny keys c.principals

/-- `RevokePrincipals` on one owner. -/
def retire (i : ℕ) : Program Unit := do
  let conn ← await .plain fun s => s.underEntry i Owner.conn fun o => { o with closed := true }
  atomically .plain fun s => ((), (s.closeConn conn.join).setOwner i
    fun o => { o with cancelled := true })

def forEach (f : ℕ → Program Unit) : List ℕ → Program Unit
  | [] => pure ()
  | i :: is => do
    f i
    forEach f is

def revokeStreams : Program Unit := do
  atomically .plain fun s => ((), { s with tickets := dropStreamTickets keys s.tickets })
  let owners ← read .plain (collectOwners keys)
  forEach retire owners
  let clients ← read .plain (collectClients keys)
  forEach unregister clients

/-- The store call that deletes the credential of `key`. -/
def delete (key : PrincipalKey) (f : Db → Db) : Program Unit :=
  atomically .plain fun s => ((), { s with db := f s.db, deleted := key :: s.deleted })

def finish (key : PrincipalKey) : Program Unit :=
  atomically .plain fun s => ((), { s with finished := key :: s.finished })

def handleAuthLogout (tokenHash : String) : Program Unit := do
  match ← read .plain fun s => validateSession s.db s.now tokenHash with
  | none => pure ()
  | some (i, _) =>
    delete (.session i) fun db => deleteSession db i
    revokeStreams [.session i]
    finish (.session i)

def handleAPIKeyDelete (id : String) : Program Unit := do
  let key := streamActorKey (apiKeyActor id)
  delete key fun db => { db with keys := db.keys.write id none }
  revokeStreams [key]
  finish key

def handleDeleteUser (id : String) : Program Unit := do
  let key := streamActorKey id
  atomically .plain fun s => ((), { s with db := deleteSessionsByUserID s.db id })
  delete key fun db => deleteUser db id
  let created ← read .plain fun s => s.db.keys.select fun _ k => decide (k.createdBy = id)
  revokeStreams (key :: created.map fun k => streamActorKey (apiKeyActor k))
  finish key

inductive Task
  | stream (auth : StreamAuth) (persistentID : Option String) (sessionID : String)
  | events (auth : EventAuth)
  | logout (tokenHash : String)
  | deleteAPIKey (id : String)
  | deleteUser (id : String)

/-- What else may happen: time passes, and users, keys, sessions and records change. -/
inductive Env
  | tick (d : ℕ)
  | change (db : Db)
  | records (ids : List String)

def program (validScopes : List String → Bool) : Task → Program Unit
  | .stream auth persistentID sessionID =>
    handleSessionStream validScopes auth persistentID sessionID
  | .events auth => handleBrowserEvents validScopes auth
  | .logout tokenHash => handleAuthLogout tokenHash
  | .deleteAPIKey id => handleAPIKeyDelete id
  | .deleteUser id => handleDeleteUser id

def Shared.move : Env → Shared → Shared
  | .tick d, s => { s with now := s.now + d }
  | .change db, s => { s with db }
  | .records ids, s => { s with records := ids }

def system (validScopes : List String → Bool) : System Call Shared Unit Task Env where
  program _ := program validScopes
  release _ s := s
  move := Shared.move
  answer := ()

end LabTether.StreamGate
