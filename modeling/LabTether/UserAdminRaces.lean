import LabTether.UserAdmin

/-!
Who can make, take over or remove an admin. A call of a request touches one user, whose lock the
request holds, or creates a new one; under the lock the row that the check has read is still the
row when the store is written. Session revocation is the exception: it locks the id as it stands
in the path, while the store trims it, so an id with white space around it takes another lock.
-/
namespace LabTether.UserAdmin

open GoStrings SignIn LockedPool Pool Transition Rows

variable {user : User}

section

def Admin (db : Db) (u : String) : Prop :=
  ∃ user, db.users.get u = some user ∧ hasAdminPrivileges user.role = true

def Owner (db : Db) (u : String) : Prop := ∃ user, db.users.get u = some user ∧ user.role = .owner

/-- The password, the sessions and the existence of the account are as they were. -/
structure SameAccount (db db' : Db) (u : String) : Prop where
  password : (db'.users.get u).map User.passwordHash = (db.users.get u).map User.passwordHash
  sessions : ∀ (i : ℕ) (r : Session), r.userID = u →
    (db'.sessions.get i = some r ↔ db.sessions.get i = some r)

/-- What a call of a request by `caller` may do to the store. -/
structure Lawful (caller : Caller) (db db' : Db) : Prop where
  promotes : caller.role ≠ .owner → ∀ u, Admin db' u → Admin db u
  takesOver : caller.role ≠ .owner → ∀ u, u ≠ caller.id → Admin db u → SameAccount db db' u
  owner : ∀ u, Owner db' u ↔ Owner db u

/-- Nothing but the account of `k` was touched. -/
structure Touches (k : String) (db db' : Db) : Prop where
  users : ∀ u, u ≠ k → db'.users.get u = db.users.get u
  sessions : ∀ (i : ℕ) (r : Session), r.userID ≠ k →
    (db'.sessions.get i = some r ↔ db.sessions.get i = some r)

variable {k : String} {db db' : Db} {caller : Caller}

theorem lawful_refl (caller : Caller) (db : Db) : Lawful caller db db :=
  ⟨fun _ _ h => h, fun _ _ _ _ => ⟨rfl, fun _ _ _ => Iff.rfl⟩, fun _ => Iff.rfl⟩

theorem Touches.lawful (h : Touches k db db')
    (hpromotes : caller.role ≠ .owner → Admin db' k → Admin db k)
    (htakes : caller.role ≠ .owner → k ≠ caller.id → Admin db k → SameAccount db db' k)
    (howner : Owner db' k ↔ Owner db k) : Lawful caller db db' where
  promotes hcaller u hu := by
    by_cases huk : u = k
    · subst huk
      exact hpromotes hcaller hu
    · rw [Admin, h.users u huk] at hu
      exact hu
  takesOver hcaller u hne hu := by
    by_cases huk : u = k
    · subst huk
      exact htakes hcaller hne hu
    · exact ⟨by rw [h.users u huk], fun i r hr => h.sessions i r (hr ▸ huk)⟩
  owner u := by
    by_cases huk : u = k
    · subst huk
      exact howner
    · rw [Owner, Owner, h.users u huk]

variable {role : Role}

theorem callerMayManageUser_iff : callerMayManageUser caller k role = true ↔
      caller.id = k ∨ hasAdminPrivileges role = false ∨ caller.role = .owner := by
  simp [callerMayManageUser, callerIsOwner, or_assoc]

theorem callerMayGrantRole_iff : callerMayGrantRole caller role = true ↔
      hasAdminPrivileges role = false ∨ caller.role = .owner := by
  simp [callerMayGrantRole, callerIsOwner]

/-- A caller who may manage a user, and grant the new role if it is no admin yet, may still manage
it with the new role. -/
theorem manage_granted {role' : Role} (hmanage : callerMayManageUser caller k role = true)
    (hgrant : hasAdminPrivileges role = true ∨ callerMayGrantRole caller role' = true) :
    callerMayManageUser caller k role' = true := by
  rw [callerMayManageUser_iff] at hmanage ⊢
  rcases hmanage with hself | hplain | hown
  · exact .inl hself
  · rw [hplain] at hgrant
    exact .inr (callerMayGrantRole_iff.1 (hgrant.resolve_left Bool.false_ne_true))
  · exact .inr (.inr hown)

def Manages (caller : Caller) (k : String) (db : Db) : Prop :=
  ∀ user, db.users.get k = some user → callerMayManageUser caller k user.role = true

theorem Touches.lawful_of_manages (h : Touches k db db') (hmanages : Manages caller k db)
    (hpromotes : caller.role ≠ .owner → Admin db' k → Admin db k)
    (howner : Owner db' k ↔ Owner db k) : Lawful caller db db' := by
  refine h.lawful hpromotes (fun hcaller hne hadmin => ?_) howner
  obtain ⟨user, huser, hadmin⟩ := hadmin
  rcases callerMayManageUser_iff.1 (hmanages user huser) with hself | hplain | hown
  · exact absurd hself.symm hne
  · rw [hplain] at hadmin
    cases hadmin
  · exact absurd hown hcaller

section

variable (hk : trimSpace k = k)
include hk

theorem get_updateUser (db : Db) (f : User → User) :
    (updateUser db k f).users.get k = (db.users.get k).map f := by
  unfold updateUser getUserByID
  rw [hk]
  cases hu : db.users.get k with
  | none => exact hu
  | some user => rw [get_write, if_pos rfl, Option.map_some]

theorem touches_updateUser (db : Db) (f : User → User) : Touches k db (updateUser db k f) := by
  refine ⟨fun u hu => ?_, fun i r _ => by rw [sessions_updateUser]⟩
  unfold updateUser getUserByID
  rw [hk]
  cases db.users.get k with
  | none => rfl
  | some user => rw [get_write_of_ne _ _ hu]

theorem touches_deleteSessions (db : Db) : Touches k db (deleteSessionsByUserID db k) := by
  refine ⟨fun _ _ => rfl, fun i r hr => ?_⟩
  change (db.sessions.deleteAll (sessionsOf db k)).get i = some r ↔ _
  rw [get_deleteAll]
  split_ifs with hmem
  · obtain ⟨r', hr', huser⟩ := mem_sessionsOf.1 hmem
    rw [hk] at huser
    have hne : db.sessions.get i ≠ some r := by
      intro hsome
      rw [hr', Option.some.injEq] at hsome
      exact hr (hsome ▸ huser)
    exact ⟨(nomatch ·), fun h => absurd h hne⟩
  · exact Iff.rfl

theorem touches_deleteUser (db : Db) : Touches k db (deleteUser db k) := by
  refine ⟨fun u hu => ?_, (touches_deleteSessions hk db).sessions⟩
  change (db.users.write (trimSpace k) none).get u = _
  rw [hk, get_write_of_ne _ _ hu]

theorem lawful_deleteSessions (hmanages : Manages caller k db) :
    Lawful caller db (deleteSessionsByUserID db k) :=
  (touches_deleteSessions hk db).lawful_of_manages hmanages (fun _ h => h) Iff.rfl

theorem lawful_deleteUser (huser : db.users.get k = some user)
    (hplain : user.role ≠ .owner) (hmanages : Manages caller k db) :
    Lawful caller db (deleteUser db k) := by
  have hgone : (deleteUser db k).users.get k = none := by
    change (db.users.write (trimSpace k) none).get k = none
    rw [hk, get_write_self]
  refine (touches_deleteUser hk db).lawful_of_manages hmanages ?_ ?_
  · rintro - ⟨user', huser', -⟩
    rw [hgone] at huser'
    cases huser'
  constructor
  · rintro ⟨user', huser', -⟩
    rw [hgone] at huser'
    cases huser'
  · rintro ⟨user', huser', hrole⟩
    obtain rfl : user = user' := Option.some.inj (huser.symm.trans huser')
    exact absurd hrole hplain

theorem lawful_updateUser {f : User → User}
    (huser : db.users.get k = some user) (hmanages : Manages caller k db)
    (hpromotes : caller.role ≠ .owner → hasAdminPrivileges (f user).role = true →
      hasAdminPrivileges user.role = true) (howner : (f user).role = .owner ↔ user.role = .owner) :
    Lawful caller db (updateUser db k f) := by
  have hafter : (updateUser db k f).users.get k = some (f user) := by
    rw [get_updateUser hk db f, huser]
    rfl
  refine (touches_updateUser hk db f).lawful_of_manages hmanages ?_ ?_
  · rintro hcaller ⟨user', huser', hadmin⟩
    rw [hafter, Option.some.injEq] at huser'
    subst huser'
    exact ⟨user, huser, hpromotes hcaller hadmin⟩
  · rw [Owner, Owner, hafter, huser]
    simpa using howner

end

theorem lawful_create {id : String} (hnew : db.users.get id = none)
    (hplain : user.role ≠ .owner) (hgrant : callerMayGrantRole caller user.role = true) :
    Lawful caller db { db with users := db.users.write id (some user) } := by
  have htouches : Touches id db { db with users := db.users.write id (some user) } :=
    ⟨fun u hu => get_write_of_ne _ _ hu, fun _ _ _ => Iff.rfl⟩
  have hafter : (db.users.write id (some user)).get id = some user := get_write_self _ _ _
  refine htouches.lawful_of_manages (fun user' h => ?_) ?_ ?_
  · rw [hnew] at h
    cases h
  · rintro hcaller ⟨user', huser', hadmin⟩
    obtain rfl : user = user' := Option.some.inj (hafter.symm.trans huser')
    rcases callerMayGrantRole_iff.1 hgrant with hrole | hown
    · rw [hrole] at hadmin
      cases hadmin
    · exact absurd hown hcaller
  · rw [Owner, Owner, hnew]
    rw [hafter]
    simpa using hplain

end

section

def discipline : Discipline String Accounts where
  inv _ := True
  free t d d' :=
    (∀ u, u ≠ t → d'.callers u = d.callers u) ∧
    (∀ n ∈ d.named, n ∈ d'.named ∧ d'.db.users.get n = d.db.users.get n) ∧
    (d'.db = d.db ∨ ∃ caller, d.callers t = some caller ∧ Lawful caller d.db d'.db)
  held t k d d' :=
    d'.callers = d.callers ∧ d'.named = d.named ∧ Touches k d.db d'.db ∧
      ∃ caller, d.callers t = some caller ∧ Lawful caller d.db d'.db
  outer d d' := d'.callers = d.callers ∧ d'.named = d.named ∧ d'.db.users = d.db.users

/-- The task is a request by the caller, and it has named the user. -/
def Named (t : ℕ) (caller : Caller) (k : String) (d : Accounts) : Prop :=
  d.callers t = some caller ∧ k ∈ d.named

variable {t : ℕ} {caller : Caller} {k : String} {mine : String → Prop}

theorem keeps_caller : Keeps discipline t mine fun d => d.callers t = some caller := by
  rintro d d' - - (⟨hcallers, -⟩ | ⟨u, hu, ⟨hcallers, -⟩ | ⟨k', -, hcallers, -⟩⟩) hcaller
  · rw [hcallers, hcaller]
  · rw [hcallers t (Ne.symm hu), hcaller]
  · rw [hcallers, hcaller]

theorem keeps_named : Keeps discipline t mine (Named t caller k) := by
  refine keeps_caller.and ?_
  rintro d d' - - (⟨-, hnamed, -⟩ | ⟨u, -, ⟨-, hnamed, -⟩ | ⟨k', -, -, hnamed, -⟩⟩) hk
  · exact hnamed ▸ hk
  · exact (hnamed k hk).1
  · exact hnamed ▸ hk

def Row (t : ℕ) (caller : Caller) (k : String) (row : Option User) (d : Accounts) : Prop :=
  Named t caller k d ∧ d.db.users.get k = row

theorem keeps_row (row : Option User) : Keeps discipline t (· = k) (Row t caller k row) := by
  rintro d d' hd hd' ho ⟨hnamed, hrow⟩
  refine ⟨keeps_named d d' hd hd' ho hnamed, ?_⟩
  rcases ho with ⟨-, -, husers⟩ | ⟨u, hu, ⟨-, hkept, -⟩ | ⟨k', hk', -, -, htouches, -⟩⟩
  · rw [husers, hrow]
  · rw [(hkept k hnamed.2).2, hrow]
  · rw [htouches.users k (Ne.symm hk'), hrow]

end

section

/-- A revocation of sessions names its user without white space around the id. -/
def Allowed : Call → Shared String Accounts → Prop
  | .plain, _ => True
  | .revokeSessions userID, _ => trimSpace userID = userID

instance : (n : Call) → (s : Shared String Accounts) → Decidable (Allowed n s)
  | .plain, _ => .isTrue trivial
  | .revokeSessions userID, _ => inferInstanceAs (Decidable (trimSpace userID = userID))

variable {t : ℕ} {caller : Caller} {k : String} {row : Option User} {failing : List Fallible}
  {hashPassword : String → String} {α : Type}

abbrev Body (t : ℕ) (k : String) (P : Accounts → Prop) (p : Program Unit) : Prop :=
  Inner discipline Allowed t k P p fun _ _ => True

abbrev Serves (t : ℕ) (P : Accounts → Prop) (p : Program Unit) : Prop :=
  Runs discipline Allowed t P p fun _ _ => True

variable {P : Accounts → Prop}

theorem body_pure : Body t k P (pure ()) := inner_pure (keeps_const True) fun _ _ => trivial

theorem serves_pure : Serves t P (pure ()) := runs_pure (keeps_const True) fun _ _ => trivial

theorem inner_exec {c : Fallible} {f : Db → Db} {v : Option User} (hf : ∀ db, db.users.get k = row →
      Touches k db (f db) ∧ Lawful caller db (f db) ∧ (f db).users.get k = v) :
    Inner discipline Allowed t k (Row t caller k row) (exec failing c f)
      fun ok => Row t caller k (if ok then v else row) := by
  refine inner_act (keeps_row row) (fun ok => keeps_row _) fun d _ hd => ⟨trivial, ?_⟩
  obtain ⟨htouches, hlawful, hrow'⟩ := hf d.db hd.2
  by_cases hfail : c ∈ failing
  · simp only [if_pos hfail]
    exact ⟨.inl trivial, hd⟩
  · simp only [if_neg hfail]
    exact ⟨.inr ⟨rfl, rfl, htouches, caller, hd.1.1, hlawful⟩, hd.1, hrow'⟩

variable {user : User}

theorem manages_of_row {db : Db} (hrow : db.users.get k = some user)
    (h : callerMayManageUser caller k user.role = true) : Manages caller k db := by
  intro user' huser'
  obtain rfl : user = user' := Option.some.inj (hrow.symm.trans huser')
  exact h

def Updated (t : ℕ) (caller : Caller) (k : String) (role : Option Role) (d : Accounts) : Prop :=
  ∀ r, role = some r → ∃ user, user.role = r ∧ callerMayManageUser caller k r = true ∧
    Row t caller k (some user) d

theorem keeps_updated (role : Option Role) :
    Keeps discipline t (· = k) (Updated t caller k role) := by
  intro d d' hd hd' ho h r hr
  obtain ⟨user, hrole, hmanage, hrow⟩ := h r hr
  exact ⟨user, hrole, hmanage, keeps_row _ d d' hd hd' ho hrow⟩

theorem inner_over :
    Inner discipline Allowed t k P (pure none) (Updated t caller k) :=
  inner_pure (keeps_updated none) fun _ _ _ h => nomatch h

section

variable (hk : trimSpace k = k)
include hk

theorem inner_getUserByID :
    Inner discipline Allowed t k (Named t caller k) (query failing .getUserByID (getUserByID · k))
      fun found d => ∀ row, found = some row → Row t caller k row d := by
  refine inner_act keeps_named (fun found => ?_) fun d _ hd => ⟨trivial, .inl rfl, ?_⟩
  · intro d d' hd hd' ho h row hrow
    exact keeps_row row d d' hd hd' ho (h row hrow)
  intro row hrow
  dsimp only at hrow
  split_ifs at hrow
  refine ⟨hd, ?_⟩
  rw [← Option.some.inj hrow, getUserByID, hk]

theorem inner_deleteSessions
    (hmanages : ∀ user, row = some user → callerMayManageUser caller k user.role = true) :
    Inner discipline Allowed t k (Row t caller k row)
      (exec failing .deleteSessionsByUserID (deleteSessionsByUserID · k))
      fun _ => Row t caller k row := by
  refine fun i e s hs => ensures_imp ?_ (inner_exec (v := row) ?_ i e s hs)
  · intro ok s' h
    exact ⟨h.1, h.2.1, by simpa using h.2.2⟩
  intro db hrow
  refine ⟨touches_deleteSessions hk db, lawful_deleteSessions hk ?_, hrow⟩
  intro user huser
  exact hmanages user (hrow.symm.trans huser)

theorem inner_updateUser {c : Fallible} {f : User → User}
    (hmanage : callerMayManageUser caller k user.role = true)
    (hpromotes : caller.role ≠ .owner → hasAdminPrivileges (f user).role = true →
      hasAdminPrivileges user.role = true) (howner : (f user).role = .owner ↔ user.role = .owner) :
    Inner discipline Allowed t k (Row t caller k (some user)) (exec failing c (updateUser · k f))
      fun ok => Row t caller k (if ok then some (f user) else some user) := by
  refine inner_exec fun db hrow => ⟨touches_updateUser hk db f, ?_, ?_⟩
  · exact lawful_updateUser hk hrow (manages_of_row hrow hmanage) hpromotes howner
  · rw [get_updateUser hk db f, hrow]
    rfl

theorem inner_changeRole (role : Option (Option Role))
    (hmanage : callerMayManageUser caller k user.role = true) :
    Inner discipline Allowed t k (Row t caller k (some user))
      (changeRole caller failing k user role) (Updated t caller k) := by
  rcases role with _ | _ | role
  · refine inner_pure (keeps_updated _) ?_
    rintro d hd _ ⟨⟩
    exact ⟨user, rfl, hmanage, hd⟩
  · exact inner_over
  dsimp only [changeRole]
  split_ifs with hfrom hto hgrant
  iterate 3 exact inner_over
  have hgranted : hasAdminPrivileges user.role = true ∨ callerMayGrantRole caller role = true := by
    simpa only [not_and_or, Bool.not_eq_false] using hgrant
  have hplain : user.role ≠ .owner := fun h => hfrom ⟨h, hto⟩
  refine inner_bind (inner_updateUser (f := fun u => { u with role := role }) hk hmanage
    ?_ ?_) fun ok => ?_
  · intro hcaller hadmin
    refine hgranted.resolve_right fun hgrant => ?_
    rcases callerMayGrantRole_iff.1 hgrant with hplain' | hown
    · rw [hplain'] at hadmin
      cases hadmin
    · exact hcaller hown
  · exact ⟨fun h => absurd h hto, fun h => absurd h hplain⟩
  · split_ifs with hok
    · refine inner_pure (keeps_updated _) ?_
      rintro d hd _ ⟨⟩
      exact ⟨_, rfl, manage_granted hmanage hgranted, hd⟩
    · exact inner_over

theorem body_changePassword (role : Role) (password : Option String) :
    Body t k (Updated t caller k (some role))
      (changePassword hashPassword caller failing k user role password) := by
  rcases password with _ | password
  · exact body_pure
  dsimp only [changePassword]
  split_ifs
  iterate 3 exact body_pure
  refine inner_of_imp (fun d h => h role rfl) (inner_exists fun current => ?_)
  refine inner_pull fun hrole => inner_pull fun hmanage => ?_
  subst hrole
  refine inner_bind (inner_deleteSessions hk ?_) fun ok => ?_
  · rintro _ ⟨⟩
    exact hmanage
  split_ifs
  · exact inner_bind (inner_updateUser (f := fun u => { u with passwordHash := _ }) hk hmanage
      (fun _ h => h) Iff.rfl) fun _ => body_pure
  · exact body_pure

theorem runs_handleUpdateUser (role : Option (Option Role)) (password : Option String) :
    Serves t (Named t caller k) (handleUpdateUser hashPassword t caller failing k role password) := by
  refine runs_underLock Call.plain (φ := True) (fun _ _ => trivial) keeps_named fun _ => ?_
  refine inner_bind (inner_getUserByID hk) fun found => ?_
  rcases found with _ | _ | user
  · exact body_pure
  · exact body_pure
  dsimp only
  split_ifs with hmanage
  · refine inner_of_imp (fun d h => h _ rfl) ?_
    refine inner_bind (inner_changeRole hk role hmanage) fun role' => ?_
    rcases role' with _ | role'
    · exact body_pure
    · exact body_changePassword hk role' password
  · exact body_pure

theorem runs_handleDeleteUser :
    Serves t (Named t caller k) (handleDeleteUser t caller failing k) := by
  unfold handleDeleteUser
  split_ifs
  · exact serves_pure
  refine runs_underLock Call.plain (φ := True) (fun _ _ => trivial) keeps_named fun _ => ?_
  refine inner_bind (inner_getUserByID hk) fun found => ?_
  rcases found with _ | _ | user
  · exact body_pure
  · exact body_pure
  dsimp only
  split_ifs with hrole hmanage
  · exact body_pure
  · refine inner_of_imp (fun d h => h _ rfl) ?_
    refine inner_bind (inner_deleteSessions hk ?_) fun _ => ?_
    · rintro _ ⟨⟩
      exact hmanage
    refine inner_bind (inner_exec (v := none) fun db hrow => ?_) fun _ => body_pure
    refine ⟨touches_deleteUser hk db,
      lawful_deleteUser hk hrow hrole (manages_of_row hrow hmanage), ?_⟩
    change (db.users.write (trimSpace k) none).get k = none
    rw [hk, get_write_self]
  · exact body_pure

end

theorem runs_handleUserSessions (userID : String) :
    Serves t (Named t caller (trimSpace userID)) (handleUserSessions t caller failing userID) := by
  unfold handleUserSessions
  split_ifs
  · exact serves_pure
  refine runs_underLock (Call.revokeSessions userID) (φ := trimSpace userID = userID)
    (fun _ h => h) keeps_named fun hk => ?_
  rw [hk]
  refine inner_bind (inner_getUserByID hk) fun found => ?_
  rcases found with _ | found
  · exact body_pure
  dsimp only
  split_ifs with hrefused
  · exact body_pure
  refine inner_of_imp (fun d h => h _ rfl) ?_
  refine inner_bind (inner_deleteSessions hk ?_) fun _ => body_pure
  rintro user rfl
  simpa using hrefused

theorem runs_createUserWithRole (id : String) (hplain : user.role ≠ .owner)
    (hgrant : callerMayGrantRole caller user.role = true) :
    Serves t (fun d => d.callers t = some caller) (createUserWithRole failing id user) := by
  refine runs_act keeps_caller (fun _ => keeps_const True) fun d _ hcaller => ⟨trivial, ?_, trivial⟩
  split_ifs with hrefused
  · exact .inl rfl
  simp only [not_or, not_not] at hrefused
  obtain ⟨-, -, hnew, hfresh, -⟩ := hrefused
  refine .inr ⟨fun _ _ => rfl, fun n hn => ⟨hn, ?_⟩, .inr ⟨caller, hcaller, ?_⟩⟩
  · exact get_write_of_ne _ _ fun h => hfresh (h ▸ hn)
  · exact lawful_create hnew hplain hgrant

theorem runs_handleCreateUser (id username password : String) (role : Option Role) :
    Serves t (fun d => d.callers t = some caller)
      (handleCreateUser hashPassword caller failing id username password role) := by
  rcases role with _ | role
  · exact serves_pure
  dsimp only [handleCreateUser]
  by_cases hrefused : validateLoginRequest username password = false ∨ role = .owner ∨
      callerMayGrantRole caller role = false
  · rw [if_pos hrefused]
    exact serves_pure
  rw [if_neg hrefused]
  simp only [not_or, Bool.not_eq_false] at hrefused
  obtain ⟨-, hplain, hgrant⟩ := hrefused
  have hquery : Runs discipline Allowed t (fun d => d.callers t = some caller)
      (query failing .getUserByUsername (usernameTaken · username))
      fun _ d => d.callers t = some caller :=
    runs_act keeps_caller (fun _ => keeps_caller) fun d _ hd => ⟨trivial, .inl rfl, hd⟩
  refine runs_bind hquery fun taken => ?_
  rcases taken with _ | _ | _
  · exact serves_pure
  · split_ifs
    · exact serves_pure
    · exact runs_createUserWithRole id hplain hgrant
  · exact serves_pure

theorem runs_authenticate (callerID target : String) :
    Runs discipline Allowed t (fun _ => True) (authenticate t callerID target)
      fun found d => ∀ caller, found = some caller → Named t caller (trimSpace target) d := by
  refine runs_act (keeps_const True) (fun found => ?_) fun d _ _ => ⟨trivial, ?_⟩
  · intro d d' hd hd' ho h caller hcaller
    exact keeps_named d d' hd hd' ho (h caller hcaller)
  rcases d.db.users.get callerID with _ | user
  · exact ⟨.inl rfl, fun _ h => nomatch h⟩
  dsimp only
  split_ifs with hadmin
  · refine ⟨.inr ⟨fun u hu => Function.update_of_ne hu _ _, fun n hn => ?_, .inl rfl⟩, ?_⟩
    · exact ⟨.tail _ hn, rfl⟩
    · rintro _ ⟨⟩
      exact ⟨Function.update_self _ _ _, .head _⟩
  · exact ⟨.inl rfl, fun _ h => nomatch h⟩

theorem runs_program (t : ℕ) (r : Request) :
    Serves t (fun _ => True) (program hashPassword t r) := by
  refine runs_bind (runs_authenticate r.callerID r.action.target) fun found => ?_
  rcases found with _ | caller
  · exact serves_pure
  refine runs_of_imp (fun d h => h caller rfl) ?_
  cases hact : r.action with
  | createUser id username password role =>
    exact runs_of_imp (fun d h => h.1) (runs_handleCreateUser id username password role)
  | updateUser id role password =>
    exact runs_handleUpdateUser (trimSpace_trimSpace id) role password
  | deleteUser id => exact runs_handleDeleteUser (trimSpace_trimSpace id)
  | revokeSessions userID => exact runs_handleUserSessions userID

end

section

variable (hashPassword : String → String)

/-- What an operation may do to the store, by the caller of the task that makes it. -/
def LawfulStep (p : Site) (op : Op) : Prop :=
  match op with
  | .advance t =>
    match p.shared.data.callers t with
    | none => (step hashPassword p op).shared.data.db = p.shared.data.db
    | some caller => Lawful caller p.shared.data.db (step hashPassword p op).shared.data.db
  | .env _ => True
  | _ => (step hashPassword p op).shared.data.db = p.shared.data.db

variable {hashPassword}

theorem lawful_of_guar {t : ℕ} {s s' : Shared String Accounts} (h : Guar discipline t s s') :
    s'.data.db = s.data.db ∨
      ∃ caller, s.data.callers t = some caller ∧ Lawful caller s.data.db s'.data.db := by
  rcases h.move with hsame | ⟨-, -, hfree⟩ | ⟨k, -, -, -, -, hheld⟩
  · exact .inl (by rw [hsame])
  · exact hfree
  · exact .inr hheld

theorem sound (hashPassword : String → String) :
    Pool.Sound (LockedPool.system (program hashPassword) Accounts.move) Allowed
      (Good discipline) (Outside discipline) (Guar discipline) := by
  refine LockedPool.sound runs_program fun e d _ => ⟨trivial, ?_⟩
  cases e with
  | signIn userID tokenHash expiresAt =>
    dsimp only [Accounts.move]
    split_ifs
    all_goals exact ⟨rfl, rfl, rfl⟩
  | endSessions ids => exact ⟨rfl, rfl, rfl⟩

theorem lawfulStep_of_ready {p : Site} {op : Op}
    (h : Ready Allowed (Good discipline) (Outside discipline) (Guar discipline) p)
    (hop : Permitted Allowed p op) : LawfulStep hashPassword p op := by
  cases op with
  | start r => rfl
  | stop t =>
    simp only [LawfulStep, step, State.step]
    split <;> rfl
  | env e => trivial
  | advance t =>
    have hmove : (p.advance t).shared.data.db = p.shared.data.db ∨
        ∃ caller, p.shared.data.callers t = some caller ∧
          Lawful caller p.shared.data.db (p.advance t).shared.data.db := by
      rcases (h.advance (sound hashPassword) hop).2 with hsame | hG
      · exact .inl (by rw [hsame])
      · exact lawful_of_guar hG
    simp only [LawfulStep, step, State.step]
    cases hcaller : p.shared.data.callers t with
    | none =>
      refine hmove.resolve_right ?_
      rintro ⟨caller, hsome, -⟩
      rw [hcaller] at hsome
      cases hsome
    | some caller =>
      rcases hmove with hsame | ⟨caller', hsome, hlawful⟩
      · rw [hsame]
        exact lawful_refl caller _
      · obtain rfl : caller = caller' := Option.some.inj (hcaller.symm.trans hsome)
        exact hlawful

/-- Every step of every run in which session revocations name their users without white space
around the ids is lawful for the caller of its request. -/
theorem admins_change_by_owner_only (hashPassword : String → String) (db : Db) (nextSession : ℕ)
    (ops : List Op)
    (hops : StepsMeet (step hashPassword) (Permitted Allowed) (initial db nextSession) ops) :
    StepsMeet (step hashPassword) (LawfulStep hashPassword) (initial db nextSession) ops := by
  refine StepsMeet.imp (fun p op hp hop => ⟨(hp.step (sound hashPassword) hop).1, lawfulStep_of_ready hp hop⟩)
    (I := Ready Allowed (Good discipline) (Outside discipline) (Guar discipline)) ?_ hops
  exact ready_start (good_start trivial)

end

def account (name : String) (role : Role) : User := newUser name "" role

/-- An owner, an admin and an operator who is signed in. -/
def threeUsers : Db where
  users := ((empty.write "own" (some (account "olga" .owner))).write "adm"
    (some (account "adam" .admin))).write "u1" (some (account "uma" .operator))
  sessions := empty.write 0 (some ⟨"u1", "cookie", 9⟩)
  keys := .empty

/-- The admin's revocation has passed its check; then the owner makes the user an admin. -/
def promotionDuringRevocation (userID : String) : List Op :=
  .start ⟨"adm", .revokeSessions userID, []⟩ :: List.replicate 4 (.advance 0) ++
    .start ⟨"own", .updateUser "u1" (some (some .admin)) none, []⟩ :: List.replicate 7 (.advance 1)

theorem admins_change_by_owner_only_in_revocation : (run (step id) (initial threeUsers 1)
        (promotionDuringRevocation "u1" ++ [.advance 0])).shared.data.db.sessions.get 0 = none ∧
      StepsMeet (step id) (LawfulStep id) (initial threeUsers 1)
        (promotionDuringRevocation "u1" ++ [.advance 0]) :=
  ⟨by decide +kernel, admins_change_by_owner_only _ _ _ _ (by decide +kernel)⟩

/-- With a blank after the id the revocation does not wait for the lock of the user, and a caller
who is not the owner ends the session of an admin. -/
theorem revocation_signs_out_admin :
    let before := run (step id) (initial threeUsers 1) (promotionDuringRevocation "u1 ")
    let after := run (step id) (initial threeUsers 1)
      (promotionDuringRevocation "u1 " ++ [.advance 0])
    before.shared.data.callers 0 = some ⟨"adm", .admin⟩ ∧
      (before.shared.data.db.users.get "u1").map User.role = some .admin ∧
      before.shared.data.db.sessions.get 0 = some ⟨"u1", "cookie", 9⟩ ∧
      after.shared.data.db.sessions.get 0 = none ∧
      ¬ StepsMeet (step id) (LawfulStep id) (initial threeUsers 1)
        (promotionDuringRevocation "u1 " ++ [.advance 0]) := by
  refine ⟨by decide +kernel, by decide +kernel, by decide +kernel, by decide +kernel, fun h => ?_⟩
  have hlast := (stepsMeet_append.1 h).2.1
  have hsame := hlast.takesOver (by decide) "u1" (by decide)
    ⟨account "uma" .admin, by decide +kernel, rfl⟩
  have hkept := (hsame.sessions 0 ⟨"u1", "cookie", 9⟩ rfl).2 (by decide +kernel)
  exact absurd hkept (by decide +kernel)

end LabTether.UserAdmin
