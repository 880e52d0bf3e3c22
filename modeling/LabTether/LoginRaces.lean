import LabTether.LoginAgainstChange

/-!
Sign-ins and changes of the credentials in any order. Every request keeps the guarantee and so
does every move from outside; the data invariant then speaks about the sessions of each state
that a run passes through.
-/
namespace LabTether.Login

open GoStrings SignIn Pool Transition List State Rows

section

variable {s s' : Shared}

theorem Mild.outside (h : Mild (fun _ => False) s s') (hinv : Inv s) (hlocks : s'.locks = s.locks)
    (huses : s'.uses = s.uses) : Outside s s' :=
  ⟨hinv.of_sound (h.sound hinv.sound) hlocks huses, fun _ => h.step, huses⟩

theorem mild_db (db : Db) (hsessions : db.sessions = s.db.sessions)
    (husers : ∀ v row, db.users.get v = some row → trimSpace v = v)
    (henabled : ∀ v, (db.users.get v).any User.has2FA = s.enabled v) :
    Mild (fun _ => False) s { s with db := db } :=
  ⟨husers, fun v _ => henabled v, fun i r hr => by rwa [hsessions] at hr, fun _ _ h => h,
    le_rfl, rfl, rfl, rfl, rfl, rfl⟩

theorem Inv.outside_addSession (hinv : Inv s) {r : Session}
    (htrim : trimSpace r.userID = r.userID) : Outside s (s.addSession r) where
  inv := hinv.of_sound (hinv.sound.addSession htrim) rfl rfl
  step t := by
    refine ⟨⟨fun i r' hr' hi => ?_, Nat.le_succ _, le_rfl, fun _ h => h⟩, fun v _ => ?_,
      fun _ h => .inl h⟩
    · rwa [get_addSession hi] at hr'
    · exact ⟨rfl, fun _ _ h _ => h, fun _ h _ => h, [], (append_nil _).symm, by simp⟩
  uses := rfl

theorem Inv.outside_move (hinv : Inv s) (e : Env) : Outside s (s.move e) := by
  cases e with
  | tick d =>
    exact Mild.outside ⟨hinv.sound.users, fun _ _ => rfl, fun _ _ h => h, fun _ _ h => h,
      Nat.le_add_right _ _, rfl, rfl, rfl, rfl, rfl⟩ hinv rfl rfl
  | createUser id user =>
    rw [Shared.move]
    split_ifs with hnew
    · obtain ⟨htrim, hnone, hplain⟩ := hnew
      refine (mild_db { s.db with users := s.db.users.write id (some user) } rfl
        (fun v row hrow => ?_) fun v => ?_).outside hinv rfl rfl
      · rcases write_cases hrow with hold | ⟨rfl, -⟩
        · exact hinv.sound.users v row hold
        · exact htrim
      rw [get_write, Shared.enabled]
      split_ifs with hv
      · rw [hv, hnone]
        exact hplain
      · rfl
    · exact (mild_db s.db rfl hinv.sound.users fun _ => rfl).outside hinv rfl rfl
  | setRole id role =>
    exact (hinv.mild_updateUser id (f := fun u => { u with role := role }) fun _ => rfl).outside hinv
      rfl rfl
  | externalSession userID tokenHash expiresAt =>
    rw [Shared.move]
    split_ifs with hsome
    · obtain ⟨row, hrow⟩ := Option.isSome_iff_exists.1 hsome
      exact hinv.outside_addSession (hinv.sound.users userID row hrow)
    · exact (mild_db s.db rfl hinv.sound.users fun _ => rfl).outside hinv rfl rfl
  | dropSessions ids =>
    exact (hinv.mild_less _ _ (fun _ _ h => (get_deleteSessions h).1) fun _ _ h => h).outside hinv
      rfl rfl
  | dropChallenges tokens =>
    exact (hinv.mild_less _ _ (fun _ _ h => h) fun _ _ h => (of_get_deleteAll h).1).outside
      hinv rfl rfl

theorem system_sound (crypto : Crypto) : Pool.Sound (system crypto) Allowed Inv Outside Guar where
  kept _ _ _ _ hG := hG.inv
  moved _ _ _ hE := hE.inv
  program _ task s hinv :=
    ensures_imp (fun _ _ _ => trivial) (lawful_program task s ⟨hinv, trivial⟩)
  release _ _ hinv := guar_lock hinv hinv.locks fun _ _ h _ => h
  move e _ hinv := hinv.outside_move e

end

/-- The tables of a hub that starts: ids of users have no white space around them. -/
structure Accounts where
  db : Db
  nextSession : ℕ
  users : ∀ u row, db.users.get u = some row → trimSpace u = u
  sessions : ∀ i r, db.sessions.get i = some r → i < nextSession ∧ trimSpace r.userID = r.userID

def Accounts.start (a : Accounts) (now : ℕ) : Shared :=
  ⟨a.db, now, .empty, .empty, a.nextSession, [], [], [], [], []⟩

def hub (a : Accounts) (now : ℕ) : State Call Shared Unit := ⟨a.start now, []⟩

theorem inv_start (a : Accounts) (now : ℕ) : Inv (a.start now) where
  locks := KeyedLock.inv_empty
  sound := ⟨a.users, a.sessions, nofun, nofun, nodup_nil, nofun, nodup_nil, nofun, nofun, nofun⟩

/-- Every session of a sign-in that has not expired comes from a check after the last completed
change of its user, unless that change kept it; a challenge makes one session; and a password
alone makes none while the second factor is enabled. -/
def Shared.Guarded (s : Shared) : Prop :=
  (∀ c ∈ s.created, ∀ r ∈ s.db.sessions.get c.session, s.now < r.expiresAt →
    ∀ ch ∈ s.changes.drop c.stamp, ch.userID = c.userID → ch.retained = some r.tokenHash) ∧
  s.tokens.Nodup ∧ ∀ c ∈ s.created, c.token = none → c.enabled = false
  deriving Decidable

instance : (n : Call) → (s : Shared) → Decidable (Allowed n s)
  | .plain, _ => .isTrue trivial
  | .revokeSessions userID, _ => inferInstanceAs (Decidable (trimSpace userID = userID))

theorem Sound.guarded {s : Shared} (h : Sound s) : s.Guarded := by
  refine ⟨fun c hc r hr hlive ch hch hu => ?_, h.tokensOnce, h.unprotected⟩
  obtain ⟨m, hm⟩ := mem_iff_getElem?.1 hch
  rw [getElem?_drop] at hm
  have hkept := h.kept c hc r hr _ ch (Nat.le_add_right _ _) hm hu
  exact hkept.resolve_left (Nat.not_le_of_lt hlive)

/-- Sign-ins, changes, revocations and deletions in any order: if every revocation of sessions
names its user without white space around the id, every state is guarded. -/
theorem logins_guarded_against_changes (crypto : Crypto) (a : Accounts) (now : ℕ)
    (ops : List (Op Task Env))
    (hops : StepsMeet (step (system crypto)) (Permitted Allowed) (hub a now) ops) :
    (run (step (system crypto)) (hub a now) ops).shared.Guarded :=
  (invariant_run (system_sound crypto) (ready_start (inv_start a now)) hops).inv.sound.guarded

def plainCrypto : Crypto where
  checkPassword password hash := password == hash
  hashPassword := id
  decryptTOTPSecret := some
  validateTOTPCode secret code _ := secret == code
  checkRecoveryCode _ _ := false

def protectedAccount : Accounts where
  db := {
    users := empty.write "u1" (some ⟨"ada", .operator, .local, "pw", some "42", some 1, []⟩)
    sessions := .empty
    keys := .empty }
  nextSession := 1
  users u row h := by
    rcases write_cases h with hold | ⟨rfl, -⟩
    · cases hold
    · decide +kernel
  sessions := nofun

/-- The password is checked, then an administrator revokes the sessions, then the second step. -/
def loginAcrossRevocation (userID : String) : List (Op Task Env) :=
  .start (.login "ada" "pw" "token" "") :: List.replicate 7 (.advance 0) ++
    .start (.revokeSessions userID true) :: List.replicate 9 (.advance 1) ++
    .start (.login2FA "token" "42" "cookie") :: List.replicate 9 (.advance 2)

theorem logins_guarded_against_revocation :
    (run (step (system plainCrypto)) (hub protectedAccount 0)
        (loginAcrossRevocation "u1")).shared.changes = [⟨"u1", none⟩] ∧
      (run (step (system plainCrypto)) (hub protectedAccount 0)
        (loginAcrossRevocation "u1")).shared.Guarded :=
  ⟨by decide +kernel, logins_guarded_against_changes _ _ _ _ (by decide +kernel)⟩

/-- With a blank after the id the revocation locks another lock and looks for the challenges of
another user, while the store deletes the sessions of the user: the challenge survives and makes
a session. -/
theorem challenge_survives_revocation :
    (run (step (system plainCrypto)) (hub protectedAccount 0)
        (loginAcrossRevocation "u1 ")).shared.changes = [⟨"u1", none⟩] ∧
      ¬ (run (step (system plainCrypto)) (hub protectedAccount 0)
        (loginAcrossRevocation "u1 ")).shared.Guarded := by
  decide +kernel

end LabTether.Login
