import LabTether.SignIn

/-!
Streams, event sockets and stream tickets by the credentials behind them
(`stream_principals.go`, `browser_events.go`, `stream_ticket_principal.go`). A key names an
actor, which is a user or an API key, or a sign-in session; the owner's bootstrap token has no
key. A stream that was revoked stays in the registry, closed, until its handler returns.
-/
namespace LabTether.SignIn

open GoStrings

inductive PrincipalKey
  | actor (actorID : String)
  | session (sessionID : ℕ)
deriving DecidableEq

def streamActorKey (actorID : String) : PrincipalKey := .actor (trimSpace actorID)

def apiKeyActor (id : String) : String := "apikey:" ++ id

def streamPrincipalKeys (actorID : String) (authSessionID : Option ℕ) : List PrincipalKey :=
  (if trimSpace actorID ≠ "" ∧ trimSpace actorID ≠ "owner" then [streamActorKey actorID] else []) ++
    authSessionID.toList.map .session

structure StreamTicket where
  /-- The terminal or desktop session that the ticket is for. -/
  (sessionID actorID : String)
  role : Role
  allowedAssets : List String
  apiKeyID : Option String
  authSessionID : Option ℕ
  expiresAt : ℕ

def StreamTicket.principals (ticket : StreamTicket) : List PrincipalKey :=
  streamPrincipalKeys ticket.actorID ticket.authSessionID

structure Stream where
  principals : List PrincipalKey
  closed : Bool
deriving DecidableEq

/-- The store with everything that is registered under its credentials. -/
structure Hub where
  db : Db
  streams : List Stream
  sockets : List (List PrincipalKey)
  tickets : Rows String StreamTicket

variable (keys : List PrincipalKey)

def matchesAny (principals : List PrincipalKey) : Bool := principals.any fun k => keys.contains k

def dropStreamTickets (tickets : Rows String StreamTicket) :
    Rows String StreamTicket :=
  tickets.deleteAll (tickets.select fun _ ticket => matchesAny keys ticket.principals)

def revokePrincipals (streams : List Stream) : List Stream :=
  streams.map fun st => if matchesAny keys st.principals then { st with closed := true } else st

def disconnectPrincipals (sockets : List (List PrincipalKey)) :
    List (List PrincipalKey) :=
  sockets.filter fun principals => !matchesAny keys principals

def revokeStreamPrincipals (h : Hub) : Hub :=
  { h with
    tickets := dropStreamTickets keys h.tickets
    streams := revokePrincipals keys h.streams
    sockets := disconnectPrincipals keys h.sockets }

/-- An open or opening stream, an event socket or an unredeemed ticket has these keys. -/
def Hub.Registered (h : Hub) (principals : List PrincipalKey) : Prop :=
  (∃ st ∈ h.streams, st.closed = false ∧ st.principals = principals) ∨ principals ∈ h.sockets ∨
    ∃ name ticket, h.tickets.get name = some ticket ∧ ticket.principals = principals

theorem registered_revoke {h : Hub} {keys principals : List PrincipalKey}
    (hr : (revokeStreamPrincipals keys h).Registered principals) :
    h.Registered principals ∧ ∀ k ∈ principals, k ∉ keys := by
  have hapart : ∀ {ks}, matchesAny keys ks = false → ∀ k ∈ ks, k ∉ keys := by
    intro ks hks k hk hmem
    have htrue : matchesAny keys ks = true := List.any_eq_true.2 ⟨k, hk, by simpa using hmem⟩
    rw [htrue] at hks
    cases hks
  rcases hr with ⟨st, hst, hopen, rfl⟩ | hsocket | ⟨name, ticket, hticket, rfl⟩
  · obtain ⟨st', hst', heq⟩ := List.mem_map.1 hst
    cases hmatch : matchesAny keys st'.principals with
    | true =>
      rw [hmatch, if_pos rfl] at heq
      rw [← heq] at hopen
      cases hopen
    | false =>
      rw [hmatch, if_neg Bool.false_ne_true] at heq
      subst heq
      exact ⟨.inl ⟨st', hst', hopen, rfl⟩, hapart hmatch⟩
  · obtain ⟨hmem, hmatch⟩ := List.mem_filter.1 hsocket
    exact ⟨.inr (.inl hmem), hapart (by simpa using hmatch)⟩
  · obtain ⟨hget, hnot⟩ := Rows.of_get_deleteAll hticket
    refine ⟨.inr (.inr ⟨name, ticket, hget, rfl⟩), hapart ?_⟩
    rw [Rows.mem_select] at hnot
    by_contra htrue
    exact hnot ⟨ticket, hget, by simpa using htrue⟩

def Db.Names (db : Db) : PrincipalKey → Prop
  | .actor a => (db.users.get a).isSome ∨ ∃ id, (db.keys.get id).isSome ∧ trimSpace (apiKeyActor id) = a
  | .session i => (db.sessions.get i).isSome

/-- Nothing is registered under a credential that does not exist. -/
def Hub.Live (h : Hub) : Prop := ∀ ks, h.Registered ks → ∀ k ∈ ks, h.db.Names k

/-- What is registered under a session is registered under its user too. -/
def Hub.Linked (h : Hub) : Prop :=
  ∀ ks, h.Registered ks → ∀ i r, .session i ∈ ks → h.db.sessions.get i = some r → .actor r.userID ∈ ks

theorem live_revoke {h : Hub} (hlive : h.Live) (hlinked : h.Linked) {db : Db}
    {keys : List PrincipalKey}
    (hsessions : ∀ i r, db.sessions.get i = some r → h.db.sessions.get i = some r)
    (hlost : ∀ ks, h.Registered ks → ∀ k ∈ ks, h.db.Names k → ¬ db.Names k → ∃ k' ∈ ks, k' ∈ keys) :
    (revokeStreamPrincipals keys { h with db := db }).Live ∧
      (revokeStreamPrincipals keys { h with db := db }).Linked := by
  constructor
  · intro ks hks k hk
    obtain ⟨hreg, hapart⟩ := registered_revoke hks
    by_contra hgone
    obtain ⟨k', hk', hmem⟩ := hlost ks hreg k hk (hlive ks hreg k hk) hgone
    exact hapart k' hk' hmem
  · intro ks hks i r hi hr
    exact hlinked ks (registered_revoke hks).1 i r hi (hsessions i r hr)

end LabTether.SignIn
