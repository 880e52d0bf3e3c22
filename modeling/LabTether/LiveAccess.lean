import LabTether.StreamRevocation

/-!
Live access ends with the credential, for the requests that revoke streams. The changes that a
user makes to the own account delete sessions without that; they leave nothing behind exactly
if nothing is registered under the sessions they delete.
-/
namespace LabTether.SignIn

open GoStrings Transition List Rows Option

variable {crypto : Crypto} {now : ℕ} {h : Hub}

/-- The sessions that a request deletes without revoking their streams. -/
def silentSessions (now : ℕ) (h : Hub) (caller : Caller) (accept : User → Option Db) : List ℕ :=
  match (getUserByID h.db caller.userID).bind accept with
  | none => []
  | some _ => otherUserSessions h.db now caller.userID caller.cookie

def Request.silentSessions (crypto : Crypto) (now : ℕ) (h : Hub) : Request → List ℕ
  | .changePassword caller current new =>
    SignIn.silentSessions now h caller (acceptPassword crypto h current new)
  | .verify2FA caller code _ =>
    SignIn.silentSessions now h caller (acceptSetupCode crypto now h code)
  | .disable2FA caller code =>
    SignIn.silentSessions now h caller (acceptSecondFactor crypto now h caller code)
  | .newRecoveryCodes caller code _ =>
    SignIn.silentSessions now h caller (acceptSecondFactor crypto now h caller code)
  | _ => []

/-- Nothing is registered under a session that the request deletes without revoking it. -/
def Unshared (crypto : Crypto) (h : Hub) (request : ℕ × Request) : Prop :=
  ∀ i ∈ request.2.silentSessions crypto request.1 h, ∀ ks, h.Registered ks → .session i ∉ ks

section

/-- Users may change, but the same users, sessions and keys are there. -/
structure SameCredentials (db db' : Db) : Prop where
  users : ∀ u, (db'.users.get u).isSome = (db.users.get u).isSome
  sessions : db'.sessions = db.sessions
  keys : db'.keys = db.keys

theorem SameCredentials.refl (db : Db) : SameCredentials db db := ⟨fun _ => rfl, rfl, rfl⟩

theorem SameCredentials.names {db db' : Db} (hs : SameCredentials db db') (k : PrincipalKey) :
    db'.Names k ↔ db.Names k := by
  cases k with
  | actor a => simp only [Db.Names, hs.users, hs.keys]
  | session i => simp [Db.Names, hs.sessions]

theorem sameCredentials_updateUser (db : Db) (id : String) (f : User → User) :
    SameCredentials db (updateUser db id f) :=
  ⟨isSome_updateUser id f, sessions_updateUser id f, keys_updateUser id f⟩

/-- A hub in which everything belongs to credentials that exist stays one. -/
abbrev Kept (h : Hub) : Prop := h.Live ∧ h.Linked

variable {db : Db}

theorem kept_same (hk : Kept h) (hs : SameCredentials h.db db) (keys : List PrincipalKey) :
    Kept (revokeStreamPrincipals keys { h with db := db }) := by
  refine live_revoke hk.1 hk.2 (fun i r hr => ?_) fun ks _ k _ hnames hgone => ?_
  · rwa [hs.sessions] at hr
  · exact absurd ((hs.names k).2 hnames) hgone

theorem kept_update (hk : Kept h) (hs : SameCredentials h.db db) : Kept { h with db := db } := by
  refine ⟨fun ks hks k hmem => (hs.names k).2 (hk.1 ks hks k hmem), fun ks hks i r hi hr => ?_⟩
  exact hk.2 ks hks i r hi (hs.sessions ▸ hr)

variable {k : PrincipalKey}

theorem names_deleteSessions {ids : List ℕ} (hnames : db.Names k)
    (hgone : ¬ (deleteSessions db ids).Names k) : ∃ i ∈ ids, k = .session i := by
  rcases k with a | i
  · exact absurd hnames hgone
  by_cases hi : i ∈ ids
  · exact ⟨i, hi, rfl⟩
  refine absurd ?_ hgone
  show ((db.sessions.deleteAll ids).get i).isSome
  rw [get_deleteAll, if_neg hi]
  exact hnames

section

variable (hk : Kept h)
include hk

theorem kept_userSessions {ids : List ℕ} {id : String}
    (hids : ∀ i ∈ ids, ∃ r, h.db.sessions.get i = some r ∧ r.userID = trimSpace id)
    (hs : SameCredentials (deleteSessions h.db ids) db) {keys : List PrincipalKey}
    (hkeys : streamActorKey id ∈ keys) : Kept (revokeStreamPrincipals keys { h with db := db }) := by
  refine live_revoke hk.1 hk.2 (fun i r hr => ?_) fun ks hks k hmem hnames hgone => ?_
  · rw [hs.sessions] at hr
    exact (of_get_deleteAll hr).1
  rw [hs.names] at hgone
  obtain ⟨i, hi, rfl⟩ := names_deleteSessions hnames hgone
  obtain ⟨r, hr, huser⟩ := hids i hi
  exact ⟨.actor r.userID, hk.2 ks hks i r hmem hr, huser ▸ hkeys⟩

theorem kept_logout (cookie : Option String) : Kept (handleAuthLogout now h cookie) := by
  unfold handleAuthLogout
  split
  · exact hk
  refine live_revoke hk.1 hk.2 (fun i r hr => (of_get_deleteAll hr).1)
    fun ks _ k hmem hnames hgone => ?_
  obtain ⟨i, hi, rfl⟩ := names_deleteSessions hnames hgone
  exact ⟨_, hmem, by simpa using hi⟩

variable (id : String)

theorem kept_demotion (old new : Role) : Kept (revokeUserStreamsIfDemoted id old new h) := by
  unfold revokeUserStreamsIfDemoted
  split_ifs
  · exact kept_same hk (.refl h.db) _
  · exact hk

theorem kept_role (old new : Role) :
    Kept (revokeUserStreamsIfDemoted id old new { h with db := updateUserRole h.db id new }) :=
  kept_demotion (kept_update hk (sameCredentials_updateUser _ _ _)) id old new

variable (caller : Caller)

theorem kept_resetPassword (u : User) (role : Role) (password : String) :
    Kept (resetPassword crypto h caller id u role password) := by
  unfold resetPassword
  split_ifs
  · exact hk
  · exact hk
  · exact kept_userSessions hk (fun i hi => mem_sessionsOf.1 hi)
      (sameCredentials_updateUser _ _ _) (.head _)

theorem kept_removeUser : Kept (removeUser h id) := by
  refine live_revoke hk.1 hk.2 (fun i r hr => (of_get_deleteAll hr).1)
    fun ks hks k hmem hnames hgone => ?_
  have hkey : streamActorKey id ∈ userStreamKeys h.db id := .head _
  by_cases hsession : (deleteSessionsByUserID h.db id).Names k
  · -- only the key of the user itself is lost beyond the sessions
    cases k with
    | session i => exact absurd hsession hgone
    | actor a =>
      by_cases ha : a = trimSpace id
      · exact ⟨_, hmem, ha ▸ hkey⟩
      refine absurd ?_ hgone
      rcases hnames with huser | hkeys
      · exact .inl ((get_write_of_ne _ _ ha).symm ▸ huser)
      · exact .inr hkeys
  · obtain ⟨i, hi, rfl⟩ := names_deleteSessions hnames hsession
    obtain ⟨r, hr, huser⟩ := mem_sessionsOf.1 hi
    exact ⟨.actor r.userID, hk.2 ks hks i r hmem hr, huser ▸ hkey⟩

theorem kept_updateUser (path : String) (role : Option Role) (password : Option String) :
    Kept (handleAuthUserActions crypto h caller path role password) := by
  unfold handleAuthUserActions
  dsimp only
  split_ifs
  · exact hk
  split
  · exact hk
  split_ifs
  · exact hk
  split
  · cases password with
    | none => exact hk
    | some password => exact kept_resetPassword hk _ _ _ _ _
  split_ifs
  · exact hk
  have hrole := kept_role hk (trimSpace path)
  cases password with
  | none => exact hrole _ _
  | some password => exact kept_resetPassword (hrole _ _) _ _ _ _ _

theorem kept_deleteUser (path : String) : Kept (handleDeleteUser h caller path) := by
  fun_cases handleDeleteUser h caller path
  case case4 => exact kept_removeUser hk _
  all_goals exact hk

theorem kept_deleteOwnAccount : Kept (handleDeleteOwnAccount h caller) := by
  fun_cases handleDeleteOwnAccount h caller
  case case3 => exact kept_removeUser hk _
  all_goals exact hk

theorem kept_revokeSessions (userID : String) : Kept (handleUserSessions h caller userID) := by
  unfold handleUserSessions
  split_ifs
  · exact hk
  · exact kept_userSessions hk (fun i hi => mem_sessionsOf.1 hi) (.refl _) (.head _)

end

theorem names_writeKey {id : String} {key : APIKey} (hk : db.Names k) :
    ({ db with keys := db.keys.write id (some key) } : Db).Names k := by
  cases k with
  | session i => exact hk
  | actor a =>
    rcases hk with huser | ⟨id', hid', ha⟩
    · exact .inl huser
    refine .inr ⟨id', ?_, ha⟩
    rw [get_write]
    split_ifs
    · rfl
    · exact hid'

theorem kept_updateAPIKey (hk : Kept h) (caller : Caller) (id : String) (update : APIKeyUpdate) :
    Kept (handleAPIKeyUpdate h caller id update) := by
  unfold handleAPIKeyUpdate
  split_ifs
  · exact hk
  · exact kept_same hk (.refl h.db) _
  split
  · exact hk
  · exact live_revoke hk.1 hk.2 (fun i r hr => hr)
      fun ks _ k _ hnames hgone => absurd (names_writeKey hnames) hgone

theorem kept_deleteAPIKey (hk : Kept h) (caller : Caller) (id : String) :
    Kept (handleAPIKeyDelete h caller id) := by
  unfold handleAPIKeyDelete
  split_ifs
  · exact hk
  refine live_revoke hk.1 hk.2 (fun i r hr => hr) fun ks _ k hmem hnames hgone => ?_
  cases k with
  | session i => exact absurd hnames hgone
  | actor a =>
    rcases hnames with huser | ⟨id', hid', ha⟩
    · exact absurd (.inl huser) hgone
    by_cases heq : id' = id
    · subst heq
      refine ⟨.actor a, hmem, ?_⟩
      rw [← ha]
      exact .head _
    · exact absurd (.inr ⟨id', (get_write_of_ne _ _ heq).symm ▸ hid', ha⟩) hgone

theorem kept_signInOIDC (hk : Kept h) (id : String) (role : Role) :
    Kept (resolveOIDCUser h id role) := by
  unfold resolveOIDCUser
  split
  · exact hk
  split_ifs
  · exact kept_role hk id _ role
  · exact hk

variable {caller : Caller}

/-- A change of the own account keeps everything live exactly if nothing is registered under
the sessions that it deletes. -/
theorem selfService_live_iff (hk : Kept h) {accept : User → Option Db} {update : Db → Db}
    (haccept : ∀ u db, accept u = some db → SameCredentials h.db db)
    (hupdate : ∀ db, SameCredentials db (update db)) :
    (selfService now h caller accept update).Linked ∧
      ((selfService now h caller accept update).Live ↔
        ∀ i ∈ silentSessions now h caller accept, ∀ ks, h.Registered ks → .session i ∉ ks) := by
  unfold selfService silentSessions
  rcases hu : (getUserByID h.db caller.userID).bind accept with _ | db
  · exact ⟨hk.2, ⟨fun _ _ hi => by simp at hi, fun _ => hk.1⟩⟩
  obtain ⟨u, -, hdb⟩ := bind_eq_some_iff.1 hu
  have hsame := haccept u db hdb
  have hids : otherUserSessions db now caller.userID caller.cookie =
      otherUserSessions h.db now caller.userID caller.cookie := by
    simp [otherUserSessions, sessionsOf, listSessionsByUserID, hsame.sessions]
  set left := revokeOtherUserSessions db now caller.userID caller.cookie with hleft
  have hup := hupdate left
  have hget : ∀ i, (update left).sessions.get i =
      if i ∈ otherUserSessions h.db now caller.userID caller.cookie then none
      else h.db.sessions.get i := by
    intro i
    rw [hup.sessions, hleft, revokeOtherUserSessions, deleteSessions, get_deleteAll, hids,
      hsame.sessions]
  refine ⟨fun ks hks i r hi hr => ?_, fun hlive i hi ks hks hmem => ?_, fun hnone ks hks k hmem => ?_⟩
  · refine hk.2 ks hks i r hi ?_
    rw [hget] at hr
    split_ifs at hr
    exact hr
  · have hnames : ((update left).sessions.get i).isSome := hlive ks hks _ hmem
    rw [hget, if_pos hi] at hnames
    cases hnames
  · rcases k with a | i
    · exact (hup.names _).2 ((hsame.names _).2 (hk.1 ks hks _ hmem))
    show ((update left).sessions.get i).isSome
    rw [hget, if_neg fun hi => hnone i hi ks hks hmem]
    exact hk.1 ks hks _ hmem

variable {u : User}

theorem accept_password {current new : String}
    (ha : acceptPassword crypto h current new u = some db) : SameCredentials h.db db := by
  unfold acceptPassword at ha
  split_ifs at ha
  cases ha
  exact .refl _

variable {code : String}

theorem accept_setupCode (ha : acceptSetupCode crypto now h code u = some db) :
    SameCredentials h.db db := by
  unfold acceptSetupCode at ha
  split_ifs at ha
  obtain ⟨secret, -, ha⟩ := bind_eq_some_iff.1 ha
  split_ifs at ha
  cases ha
  exact .refl _

theorem accept_secondFactor (ha : acceptSecondFactor crypto now h caller code u = some db) :
    SameCredentials h.db db := by
  unfold acceptSecondFactor at ha
  split_ifs at ha
  obtain ⟨secret, -, ha⟩ := bind_eq_some_iff.1 ha
  split_ifs at ha
  · cases ha
    exact .refl _
  revert ha
  fun_cases consumeRecoveryCode
  all_goals rintro ⟨⟩
  exact sameCredentials_updateUser _ _ _

theorem serve_live_iff (hk : Kept h) (request : ℕ × Request) : (serve crypto h request).Linked ∧
      ((serve crypto h request).Live ↔ Unshared crypto h request) := by
  obtain ⟨now, request⟩ := request
  have hother : ∀ {h' : Hub}, Kept h' →
      h'.Linked ∧ (h'.Live ↔ ∀ i ∈ ([] : List ℕ), ∀ ks, h.Registered ks → .session i ∉ ks) :=
    fun hk' => ⟨hk'.2, ⟨fun _ _ hi => by simp at hi, fun _ => hk'.1⟩⟩
  cases request with
  | changePassword caller current new =>
    exact selfService_live_iff hk (fun _ _ ha => accept_password ha)
      fun db => sameCredentials_updateUser db _ _
  | verify2FA caller code codes =>
    exact selfService_live_iff hk (fun _ _ ha => accept_setupCode ha)
      fun db => sameCredentials_updateUser db _ _
  | disable2FA caller code | newRecoveryCodes caller code codes =>
    exact selfService_live_iff hk (fun _ _ ha => accept_secondFactor ha)
      fun db => sameCredentials_updateUser db _ _
  | logout cookie => exact hother (kept_logout hk cookie)
  | updateUser caller path role password => exact hother (kept_updateUser hk caller path role password)
  | deleteUser caller path => exact hother (kept_deleteUser hk caller path)
  | deleteOwnAccount caller => exact hother (kept_deleteOwnAccount hk caller)
  | revokeSessions caller userID => exact hother (kept_revokeSessions hk caller userID)
  | updateAPIKey caller id update => exact hother (kept_updateAPIKey hk caller id update)
  | deleteAPIKey caller id => exact hother (kept_deleteAPIKey hk caller id)
  | signInOIDC id role => exact hother (kept_signInOIDC hk id role)

end

/-- A hub in which every stream, socket and ticket belongs to credentials that exist. -/
structure Connected where
  hub : Hub
  live : hub.Live
  linked : hub.Linked

/-- Requests one after the other: nothing is left under a credential that is gone exactly if
each change of an own account meets nothing under the sessions that it deletes. -/
theorem live_access_iff_unshared (crypto : Crypto) (c : Connected) (requests : List (ℕ × Request)) :
    AllStates (serve crypto) Hub.Live c.hub requests ↔
      StepsMeet (serve crypto) (Unshared crypto) c.hub requests :=
  allStates_iff_of_inv (P := Hub.Live) (I := Hub.Linked)
    (fun _ request hlinked hlive => serve_live_iff ⟨hlive, hlinked⟩ request) c.linked c.live

/-- Passwords are their own hashes, codes are the secrets. -/
def plainCrypto : Crypto := ⟨(· == ·), id, some, fun secret code _ => secret == code, (· == ·)⟩

/-- One user with a session here and one elsewhere, with a terminal open there. -/
def twoSessions : Hub where
  db :=
    { users := empty.write "u"
        (some ⟨"user", .operator, .local, "old-password", none, none, []⟩)
      sessions := (empty.write 0 (some ⟨"u", "here", 100⟩)).write 1
        (some ⟨"u", "elsewhere", 100⟩)
      keys := empty }
  streams := [⟨[.actor "u", .session 1], false⟩]
  sockets := []
  tickets := empty

theorem registered_twoSessions {ks : List PrincipalKey} (hks : twoSessions.Registered ks) :
    ks = [.actor "u", .session 1] := by
  rcases hks with ⟨st, hst, -, rfl⟩ | hsocket | ⟨name, ticket, hticket, -⟩
  · rw [mem_singleton.1 hst]
  · cases hsocket
  · cases hticket

def connectedTwoSessions : Connected where
  hub := twoSessions
  live := by
    intro ks hks k hk
    rw [registered_twoSessions hks] at hk
    rcases mem_cons.1 hk with rfl | hk
    · exact .inl rfl
    · rw [mem_singleton.1 hk]
      exact rfl
  linked := by
    intro ks hks i r hi hr
    rw [registered_twoSessions hks] at hi ⊢
    obtain rfl : i = 1 := by simpa using hi
    cases hr
    exact .head _

/-- The password is changed here: the session elsewhere is gone, and its terminal is open. -/
theorem password_change_leaves_stream :
    let h := serve plainCrypto connectedTwoSessions.hub
      (1, .changePassword ⟨"u", .operator, some "here", false⟩ "old-password" "new-password")
    h.db.sessions.get 1 = none ∧ (h.db.sessions.get 0).isSome ∧
      (h.db.users.get "u").map User.passwordHash = some "new-password" ∧
      h.streams = [⟨[.actor "u", .session 1], false⟩] ∧ ¬ h.Live := by
  refine ⟨by decide +kernel, by decide +kernel, by decide +kernel, by decide +kernel, fun hlive => ?_⟩
  have hnames := hlive [.actor "u", .session 1] (.inl ⟨⟨_, false⟩, by decide +kernel, rfl, rfl⟩)
    (.session 1) (by decide)
  revert hnames
  show ¬ (isSome _ = true)
  decide +kernel

end LabTether.SignIn
