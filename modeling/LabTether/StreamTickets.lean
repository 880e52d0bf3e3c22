import LabTether.StreamPrincipals

/-!
Stream tickets and the authority behind them (`request_auth_middleware.go`,
`stream_ticket_principal.go`, `browser_events.go`). A ticket is issued to a credential that the
middleware admits and is taken once, with a check of its own on the credential. That check does
not look at the creator of an API key, which the middleware does: `backed_iff_creatorHolds` says
when the two agree. What the check of scopes answers is an input.
-/
namespace LabTether.SignIn

open GoStrings Option Rows

section

/-- The hashes of the secrets that were handed out. Ids are generated and not used again, and a
session or key keeps its secret. -/
structure Secrets where
  token : ℕ → String
  secret : String → String
  token_injective : Function.Injective token
  secret_injective : Function.Injective secret

/-- A store whose rows hold these hashes. A user's id is generated and is not `owner`. -/
structure Store (S : Secrets) where
  db : Db
  tokens : ∀ i r, db.sessions.get i = some r → r.tokenHash = S.token i
  secrets : ∀ id key, db.keys.get id = some key → key.secretHash = S.secret id
  notOwner : ∀ i r, db.sessions.get i = some r → trimSpace r.userID ≠ "owner"

/-- A credential as it is presented: the owner token, a cookie or an API key, by their hashes. -/
inductive Credential
  | ownerToken
  | cookie (tokenHash : String)
  | apiKey (secretHash : String)

/-- What the middleware puts into the context of an admitted request. -/
structure Principal where
  actorID : String
  role : Role
  allowedAssets : List String
  apiKeyID : Option String
  authSessionID : Option ℕ

variable (validScopes : List String → Bool) (db : Db) (now : ℕ)

def authenticatedSessionRequest (tokenHash : String) : Option Principal :=
  (validateSession db now tokenHash).bind fun (i, session) =>
    (getUserByID db session.userID).map fun user => ⟨session.userID, user.role, [], none, some i⟩

def lookupAPIKeyByHash (secretHash : String) : Option (String × APIKey) :=
  (db.keys.select fun _ key => decide (key.secretHash = secretHash)).head?.bind fun id =>
    (db.keys.get id).map fun key => (id, key)

def APIKey.expired (key : APIKey) : Bool := key.expiresAt.any fun t => decide (t < now)

/-- The role of a key under its creator's current role; no role if the creator is gone. -/
def apiKeyCreatorCappedRole (key : APIKey) (role : Role) : Option Role :=
  let creator := trimSpace key.createdBy
  if creator = "" ∨ creator = "owner" ∨ creator = "system" then some role
  else (getUserByID db creator).map fun user => lowerRole role user.role

/-- The middleware's checks on an API key. -/
def admitAPIKey (key : APIKey) : Option Role :=
  if key.expired now ∨ validScopes key.scopes = false ∨ key.role = .owner then none
  else apiKeyCreatorCappedRole db key key.role

def authenticate : Credential → Option Principal
  | .ownerToken => some ⟨"owner", .owner, [], none, none⟩
  | .cookie tokenHash => authenticatedSessionRequest db now tokenHash
  | .apiKey secretHash =>
    (lookupAPIKeyByHash db secretHash).bind fun (id, key) =>
      (admitAPIKey validScopes db now key).map fun role =>
        ⟨apiKeyActor id, role, key.allowedAssets, some id, none⟩

variable (ticket : StreamTicket)

def streamTicketPrincipalActive : Bool :=
  let actorID := trimSpace ticket.actorID
  if actorID = "owner" then true
  else
    match ticket.apiKeyID, ticket.authSessionID with
    | some id, _ => (db.keys.get id).any fun key =>
        !key.expired now && decide (ticket.role.rank ≤ key.role.rank)
    | none, some i => ((getUserByID db actorID).any fun user =>
          decide (ticket.role.rank ≤ user.role.rank)) &&
        (listSessionsByUserID db now actorID).contains i
    | none, none => false

def StreamTicket.credential (S : Secrets) (ticket : StreamTicket) : Credential :=
  match ticket.apiKeyID, ticket.authSessionID with
  | some id, _ => .apiKey (S.secret id)
  | none, some i => .cookie (S.token i)
  | none, none => .ownerToken

/-- The issuing credential would be admitted now, with the role of the ticket or more. -/
def StreamTicket.Backed (S : Secrets) (ticket : StreamTicket) : Prop :=
  ∃ principal, authenticate validScopes db now (ticket.credential S) = some principal ∧
    ticket.role.rank ≤ principal.role.rank

/-- The API key of the ticket, if it has one, has valid scopes and a role below the owner's, and
a user who created it still holds the role of the ticket. -/
def StreamTicket.CreatorHolds : Prop :=
  ∀ id key, ticket.apiKeyID = some id → db.keys.get id = some key →
    validScopes key.scopes = true ∧ key.role ≠ .owner ∧
      (trimSpace key.createdBy = "" ∨ trimSpace key.createdBy = "owner" ∨
        trimSpace key.createdBy = "system" ∨
        ∃ user, getUserByID db key.createdBy = some user ∧ ticket.role.rank ≤ user.role.rank)

/-- Only a ticket of the owner token names the owner. -/
def StreamTicket.Marked : Prop :=
  trimSpace ticket.actorID = "owner" ↔ ticket.apiKeyID = none ∧ ticket.authSessionID = none

end

variable {id : String}

section

variable {S : Secrets} {validScopes : List String → Bool} {now : ℕ} (st : Store S) {i : ℕ}

theorem validateSession_token {r : Session} (hr : st.db.sessions.get i = some r)
    (hnow : now < r.expiresAt) :
    validateSession st.db now (S.token i) = some (i, r) := by
  have hhead := head?_select (p := fun _ (x : Session) =>
    decide (x.tokenHash = S.token i ∧ now < x.expiresAt)) hr (by simp [hnow, st.tokens i r hr])
    fun j r' hr' hp => S.token_injective ((st.tokens j r' hr').symm.trans (of_decide_eq_true hp).1)
  rw [validateSession, hhead, bind_some, hr]
  rfl

variable {key : APIKey}

theorem lookupAPIKeyByHash_secret (hkey : st.db.keys.get id = some key) :
    lookupAPIKeyByHash st.db (S.secret id) = some (id, key) := by
  have hhead := head?_select (p := fun _ (x : APIKey) => decide (x.secretHash = S.secret id))
    hkey (by simp [st.secrets id key hkey])
    fun j key' hkey' hp =>
      S.secret_injective ((st.secrets j key' hkey').symm.trans (of_decide_eq_true hp))
  rw [lookupAPIKeyByHash, hhead, bind_some, hkey]
  rfl

theorem cappedRole_iff {db : Db} {role : Role} (hrole : role.rank ≤ key.role.rank) :
    (∃ capped, apiKeyCreatorCappedRole db key key.role = some capped ∧ role.rank ≤ capped.rank) ↔
      (trimSpace key.createdBy = "" ∨ trimSpace key.createdBy = "owner" ∨
        trimSpace key.createdBy = "system" ∨
        ∃ user, getUserByID db key.createdBy = some user ∧ role.rank ≤ user.role.rank) := by
  unfold apiKeyCreatorCappedRole
  dsimp only
  split_ifs with hnobody
  · refine ⟨fun _ => ?_, fun _ => ⟨key.role, rfl, hrole⟩⟩
    rcases hnobody with h | h | h
    · exact .inl h
    · exact .inr (.inl h)
    · exact .inr (.inr (.inl h))
  simp only [not_or] at hnobody
  have hcreator : getUserByID db (trimSpace key.createdBy) = getUserByID db key.createdBy := by
    simp [getUserByID]
  rw [hcreator]
  constructor
  · rintro ⟨capped, hcapped, hle⟩
    obtain ⟨user, huser, rfl⟩ := map_eq_some_iff.1 hcapped
    rw [rank_lowerRole] at hle
    exact .inr (.inr (.inr ⟨user, huser, by omega⟩))
  · rintro (h | h | h | ⟨user, huser, hle⟩)
    · exact absurd h hnobody.1
    · exact absurd h hnobody.2.1
    · exact absurd h hnobody.2.2
    · refine ⟨lowerRole key.role user.role, by rw [huser]; rfl, ?_⟩
      rw [rank_lowerRole]
      omega

variable {ticket : StreamTicket}

/-- The check accepts the ticket of a key exactly if the key is there, unexpired and has the role. -/
theorem active_apiKey {db : Db} (hmarked : ticket.Marked)
    (hid : ticket.apiKeyID = some id) : streamTicketPrincipalActive db now ticket = true ↔
      ∃ key, db.keys.get id = some key ∧ key.expired now = false ∧
        ticket.role.rank ≤ key.role.rank := by
  have howner : ¬ trimSpace ticket.actorID = "owner" := by simp [hmarked.eq, hid]
  simp [streamTicketPrincipalActive, howner, hid, any_eq_true]

theorem backed_apiKey_iff (hid : ticket.apiKeyID = some id) (hkey : st.db.keys.get id = some key)
    (hexpired : key.expired now = false) (hrole : ticket.role.rank ≤ key.role.rank) :
    ticket.Backed validScopes st.db now S ↔ ticket.CreatorHolds validScopes st.db := by
  have hcredential : ticket.credential S = .apiKey (S.secret id) := by
    simp [StreamTicket.credential, hid]
  have hauth : ticket.Backed validScopes st.db now S ↔ ∃ role,
      admitAPIKey validScopes st.db now key = some role ∧ ticket.role.rank ≤ role.rank := by
    unfold StreamTicket.Backed
    rw [hcredential, authenticate, lookupAPIKeyByHash_secret st hkey]
    simp only [bind_some, map_eq_some_iff]
    constructor
    · rintro ⟨_, ⟨role, hadmit, rfl⟩, hle⟩
      exact ⟨role, hadmit, hle⟩
    · rintro ⟨role, hadmit, hle⟩
      exact ⟨_, ⟨role, hadmit, rfl⟩, hle⟩
  rw [hauth]
  unfold admitAPIKey
  constructor
  · rintro ⟨role, hadmit, hle⟩ id' key' hid' hkey'
    rw [hid, some.injEq] at hid'
    subst hid'
    rw [hkey, some.injEq] at hkey'
    subst hkey'
    split_ifs at hadmit with hbad
    simp only [not_or, Bool.not_eq_false] at hbad
    exact ⟨hbad.2.1, hbad.2.2, (cappedRole_iff hrole).1 ⟨role, hadmit, hle⟩⟩
  · intro hholds
    obtain ⟨hscopes, hnotOwner, hcreator⟩ := hholds id key hid hkey
    obtain ⟨capped, hcapped, hle⟩ := (cappedRole_iff hrole).2 hcreator
    exact ⟨capped, by simp [hexpired, hscopes, hnotOwner, hcapped], hle⟩

/-- The check accepts the ticket of a session only if the session would be admitted. -/
theorem backed_session (hmarked : ticket.Marked) (hid : ticket.apiKeyID = none)
    (hi : ticket.authSessionID = some i)
    (hactive : streamTicketPrincipalActive st.db now ticket = true) :
    ticket.Backed validScopes st.db now S := by
  have howner : ¬ trimSpace ticket.actorID = "owner" := by simp [hmarked.eq, hi]
  simp only [streamTicketPrincipalActive, if_neg howner, hid, hi, Bool.and_eq_true,
    any_eq_true, decide_eq_true_eq, List.contains_iff_mem] at hactive
  obtain ⟨⟨user, huser, hrole⟩, hlisted⟩ := hactive
  obtain ⟨r, hr, hp⟩ := mem_select.1 hlisted
  obtain ⟨huserID, hnow⟩ := of_decide_eq_true hp
  have hsame : getUserByID st.db r.userID = some user := by
    rw [huserID]
    simpa [getUserByID] using huser
  refine ⟨⟨r.userID, user.role, [], none, some i⟩, ?_, hrole⟩
  have hcredential : ticket.credential S = .cookie (S.token i) := by
    simp [StreamTicket.credential, hid, hi]
  rw [hcredential, authenticate, authenticatedSessionRequest, validateSession_token st hr hnow]
  simp [hsame]

/-- For a ticket that its check accepts, the middleware would admit the credential with the
role of the ticket exactly if the creator of an API key holds that role. -/
theorem backed_iff_creatorHolds (hmarked : ticket.Marked)
    (hactive : streamTicketPrincipalActive st.db now ticket = true) :
    ticket.Backed validScopes st.db now S ↔ ticket.CreatorHolds validScopes st.db := by
  cases hid : ticket.apiKeyID with
  | some id =>
    obtain ⟨key, hkey, hexpired, hrole⟩ := (active_apiKey hmarked hid).1 hactive
    exact backed_apiKey_iff st hid hkey hexpired hrole
  | none =>
    have hholds : ticket.CreatorHolds validScopes st.db := by
      intro id key hid'
      rw [hid] at hid'
      cases hid'
    refine iff_of_true ?_ hholds
    rcases hi : ticket.authSessionID with _ | i
    case some => exact backed_session st hmarked hid hi hactive
    have hcredential : ticket.credential S = .ownerToken := by
      simp [StreamTicket.credential, hid, hi]
    refine ⟨⟨"owner", .owner, [], none, none⟩, by rw [hcredential]; rfl, ?_⟩
    cases ticket.role <;> decide

end

def browserEvents : String := "__browser_events__"

variable (now : ℕ)

def StreamTicket.expired (ticket : StreamTicket) : Bool := decide (ticket.expiresAt < now)

variable (tickets : Rows String StreamTicket)

def purgeExpired : Rows String StreamTicket :=
  tickets.deleteAll (tickets.select fun _ ticket => ticket.expired now)

/-- What `consumeStreamTicketAuth` takes out of the store for a stream of the session. -/
def takeStreamTicket (sessionID name : String) (tickets : Rows String StreamTicket) :
    Option StreamTicket × Rows String StreamTicket :=
  if sessionID = "" ∨ name = "" then (none, tickets)
  else
    let tickets := purgeExpired now tickets
    match tickets.get name with
    | none => (none, tickets)
    | some ticket =>
      if ticket.expired now then (none, tickets.write name none)
      else if ticket.sessionID ≠ sessionID then (none, tickets)
      else (some ticket, tickets.write name none)

/-- What `consumeEventTicketPrincipals` takes out of the store and lets pass to its check. -/
def takeEventTicket (name : String) (tickets : Rows String StreamTicket) :
    Option StreamTicket × Rows String StreamTicket :=
  if name = "" then (none, tickets)
  else
    match tickets.get name with
    | none => (none, tickets)
    | some ticket =>
      if ticket.sessionID ≠ browserEvents then (none, tickets)
      else if ticket.expired now ∨ (ticket.apiKeyID.isSome ∧ ticket.allowedAssets ≠ []) then
        (none, tickets.write name none)
      else (some ticket, tickets.write name none)

def Within (tickets' tickets : Rows String StreamTicket) : Prop :=
  ∀ name ticket, tickets'.get name = some ticket → tickets.get name = some ticket

theorem within_deleteAll (names : List String) : Within (tickets.deleteAll names) tickets :=
  fun _ _ h => (of_get_deleteAll h).1

theorem within_write_none (name : String) : Within (tickets.write name none) tickets := by
  intro name' ticket h
  rw [get_write] at h
  split_ifs at h
  exact h

theorem Within.get_none {tickets' tickets : Rows String StreamTicket} (h : Within tickets' tickets)
    {name : String} (hnone : tickets.get name = none) : tickets'.get name = none := by
  cases hget : tickets'.get name with
  | none => rfl
  | some ticket => exact absurd (h _ _ hget) (by simp [hnone])

/-- A ticket that is taken was held for the session and unexpired, and is gone. -/
structure Taken (now : ℕ) (tickets : Rows String StreamTicket) (name sessionID : String)
    (out : Option StreamTicket × Rows String StreamTicket) : Prop where
  within : Within out.2 tickets
  ticket : ∀ ticket, out.1 = some ticket → tickets.get name = some ticket ∧
    ticket.expired now = false ∧ ticket.sessionID = sessionID ∧ out.2.get name = none

theorem taken_none {now : ℕ} {tickets tickets' : Rows String StreamTicket} {name sessionID : String}
    (h : Within tickets' tickets) : Taken now tickets name sessionID (none, tickets') :=
  ⟨h, fun _ hsome => nomatch hsome⟩

theorem taken_takeStreamTicket (sessionID name : String) (tickets : Rows String StreamTicket) :
    Taken now tickets name sessionID (takeStreamTicket now sessionID name tickets) := by
  have hpurge : Within (purgeExpired now tickets) tickets := within_deleteAll _ _
  have hspent : Within ((purgeExpired now tickets).write name none) tickets :=
    fun name' ticket' h => hpurge _ _ (within_write_none _ _ _ _ h)
  fun_cases takeStreamTicket now sessionID name tickets
  · exact taken_none fun _ _ h => h
  case case5 hget hexpired hsession =>
    refine ⟨hspent, fun ticket' hsome => ?_⟩
    cases hsome
    exact ⟨hpurge _ _ hget, by simpa using hexpired, not_not.1 hsession, get_write_self _ _ _⟩
  all_goals first | exact taken_none hpurge | exact taken_none hspent

theorem taken_takeEventTicket (name : String) (tickets : Rows String StreamTicket) :
    Taken now tickets name browserEvents (takeEventTicket now name tickets) := by
  have hspent : Within (tickets.write name none) tickets := within_write_none _ _
  fun_cases takeEventTicket now name tickets
  case case5 hget hsession hrefused =>
    refine ⟨hspent, fun ticket' hsome => ?_⟩
    cases hsome
    simp only [not_or] at hrefused
    exact ⟨hget, by simpa using hrefused.1, not_not.1 hsession, get_write_self _ _ _⟩
  all_goals first | exact taken_none fun _ _ h => h | exact taken_none hspent

end LabTether.SignIn
