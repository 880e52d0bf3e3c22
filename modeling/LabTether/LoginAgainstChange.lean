import LabTether.LoginPrograms

/-!
Sign-ins against changes of the credentials, over every run of requests. The revocation of
sessions locks the user id as it stands in the path of the request, while the store trims it:
with white space around the id it holds no lock that anyone else asks for and leaves the
pending challenges alone.
-/
namespace LabTether.Login

open GoStrings SignIn Pool Pool.Process Option Rows

variable {t : ℕ} {u : String} {P : Shared → Prop} {s : Shared} {crypto : Crypto} {α : Type}

theorem has2FA_consumeRecoveryCode {db db' : Db} {id code : String}
    (h : consumeRecoveryCode db crypto id code = some db') :
    ∃ f : User → User, (∀ user, (f user).has2FA = user.has2FA) ∧ db' = updateUser db id f := by
  unfold consumeRecoveryCode at h
  split at h
  · cases h
  split at h
  · cases h
  · refine ⟨_, ?_, (some.inj h).symm⟩
    exact fun _ => rfl

theorem Inv.mild_updateUser (hinv : Inv s) (id : String) {f : User → User}
    (hf : ∀ user, (f user).has2FA = user.has2FA) :
    Mild (fun _ => False) s { s with db := updateUser s.db id f } := by
  have hrow : ∀ v, ((updateUser s.db id f).users.get v).any User.has2FA =
      (s.db.users.get v).any User.has2FA := by
    intro v
    unfold updateUser
    split
    · rfl
    rename_i user huser
    rw [get_write]
    split_ifs with hv
    · rw [hv, show s.db.users.get (trimSpace id) = some user from huser]
      exact hf user
    · rfl
  refine ⟨fun v row hv => ?_, fun v _ => hrow v, fun i r hr => ?_, fun _ _ h => h, le_rfl, rfl,
    rfl, rfl, rfl, rfl⟩
  · have hsome : (s.db.users.get v).isSome := by
      rw [← isSome_updateUser id f v]
      exact isSome_of_mem hv
    obtain ⟨row', hrow'⟩ := isSome_iff_exists.1 hsome
    exact hinv.sound.users v row' hrow'
  · rwa [sessions_updateUser] at hr

theorem inner_tryRecoveryCode (hP : Keeps t u P) (code : String) :
    Inner t u P (tryRecoveryCode crypto u code) fun _ => P := by
  refine inner_mild hP fun s hinv => ?_
  split
  · exact ⟨hinv.mild_less s.db.sessions s.challenges (fun _ _ h => h) fun _ _ h => h, rfl, rfl⟩
  · rename_i db hdb
    obtain ⟨f, hf, rfl⟩ := has2FA_consumeRecoveryCode hdb
    exact ⟨hinv.mild_updateUser u hf, rfl, rfl⟩

variable {f : Shared → α}

theorem inner_look (hP : Keeps t u P) : Inner t u P (read .plain f) fun _ => P :=
  inner_read hP (fun _ => hP) fun _ _ h => h

theorem inner_checkSecondFactor (hP : Keeps t u P) (user : User) (code : String) :
    Inner t u P (checkSecondFactor crypto u user code) fun _ => P := by
  unfold checkSecondFactor
  split
  · exact inner_pure hP fun _ h => h
  refine inner_bind (inner_look hP) fun valid => ?_
  cases valid with
  | true => exact inner_pure hP fun _ h => h
  | false => exact inner_tryRecoveryCode hP code

/-- The challenge is in hand, with what it says about its user. -/
def Taken (t : ℕ) (u token : String) (c : Option Challenge) (s : Shared) : Prop :=
  ∀ ch, c = some ch → ch.userID = u → InHand t token s ∧ Since u ch.stamp s

theorem keeps_taken (token : String) (c : Option Challenge) : Keeps t u (Taken t u token c) :=
  fun _ _ _ hc h ch hch hu => ⟨hc.inHand (h ch hch hu).1, hc.apart.since (h ch hch hu).2⟩

theorem inner_consumeChallenge (token : String) :
    Inner t u (fun _ => True) (consumeChallenge t token) (Taken t u token) := by
  refine inner_atomically (keeps_pure True) (keeps_taken token) fun s hinv _ => ?_
  split
  · exact ⟨hinv.acts_refl, nofun⟩
  rename_i c hc
  split_ifs
  · refine ⟨Mild.acts ((hinv.mild_less s.db.sessions (s.challenges.write token none)
      (fun _ _ h => h) fun token' c' h => ?_).mono fun _ h => h.elim) hinv rfl rfl, nofun⟩
    rw [get_write] at h
    split_ifs at h
    exact h
  · refine ⟨⟨hinv.sound.takeChallenge hc, step_takeChallenge, rfl, rfl⟩, fun ch hch hu => ?_⟩
    cases hch
    obtain ⟨-, htaken, -, hsince⟩ := hinv.sound.challenges token c hc
    exact ⟨⟨.head _, fun hmem => htaken (hinv.sound.tokens token hmem)⟩, hu ▸ hsince⟩

variable {φ : α → Prop}

theorem runs_aside {f : Shared → α × Shared}
    (hf : ∀ s, Inv s → Mild (fun _ => False) s (f s).2 ∧ (f s).2.locks = s.locks ∧
      (f s).2.uses = s.uses ∧ φ (f s).1) :
    Runs t (fun _ => True) (atomically .plain f) fun a _ => φ a := by
  refine triple_await (stable_outer True t) (fun a => stable_outer (φ a) t) ?_
  rintro s a s' ⟨hinv, -⟩ - hstep
  have hpair : f s = (a, s') := some.inj hstep
  obtain ⟨hmild, hlocks, huses, hφ⟩ := hf s hinv
  rw [hpair] at hmild hlocks huses hφ
  have hinv' : Inv s' := by
    refine ⟨?_, hmild.sound hinv.sound⟩
    rw [hlocks, Shared.threads, huses]
    exact hinv.locks
  exact ⟨⟨hinv', (hmild.mono fun _ h => h.elim).step, fun i use hi _ => by rw [huses, hi]⟩, hinv', hφ⟩

theorem runs_look (hf : ∀ s, Inv s → φ (f s)) :
    Runs t (fun _ => True) (read .plain f) fun a _ => φ a :=
  runs_aside fun s hinv => ⟨hinv.mild_less s.db.sessions s.challenges (fun _ _ h => h)
    fun _ _ h => h, rfl, rfl, hf s hinv⟩

/-- A request of which nothing but its guarantee is asked. -/
abbrev Lawful (t : ℕ) (p : Program Unit) : Prop := Runs t (fun _ => True) p fun _ _ => True

theorem lawful_pure : Lawful t (pure ()) := triple_pure (stable_outer True t) fun _ h => h

theorem runs_bind_fact {p : Program α} {g : α → Program Unit} (φ : α → Prop)
    (hp : Runs t (fun _ => True) p fun a _ => φ a) (hg : ∀ a, φ a → Lawful t (g a)) :
    Lawful t (p >>= g) :=
  triple_bind hp fun a s hs => hg a hs.2 s ⟨hs.1, trivial⟩

theorem lawful_underLock (htrim : trimSpace u = u) {body : Program Unit}
    (hbody : Body t u (fun _ => True) body) : Lawful t (underLock .plain t u body) :=
  runs_underLock .plain t u (fun _ _ => htrim) fun _ => hbody

theorem lawful_handleAuthLogin (username password token tokenHash : String) :
    Lawful t (handleAuthLogin crypto t username password token tokenHash) := by
  refine runs_bind_fact (fun a => ∀ id, a = some id → trimSpace id = id)
    (runs_look fun s hinv id hid => ?_) fun found hfound => ?_
  · obtain ⟨user, huser, -⟩ := mem_select.1 (List.mem_of_mem_head? hid)
    exact hinv.sound.users id user huser
  rcases found with _ | u
  · exact lawful_pure
  have htrim := hfound u rfl
  refine lawful_underLock htrim (inner_bind (inner_readUser htrim) fun p => ?_)
  obtain ⟨user, stamp⟩ := p
  rcases user with _ | user
  · exact body_pure
  dsimp only
  split_ifs with hpassword h2FA
  · exact inner_of_imp (fun s hs => hs.1) (body_createChallenge htrim token stamp)
  · refine inner_of_imp (fun s hs => ⟨hs.1, fun _ => ?_, nofun⟩)
      (body_completeLogin htrim tokenHash stamp none)
    rw [hs.2 user rfl]
    simpa using h2FA
  · exact body_pure

theorem lawful_handleLogin2FA (token code tokenHash : String) :
    Lawful t (handleLogin2FA crypto t token code tokenHash) := by
  unfold handleLogin2FA
  split_ifs
  · exact lawful_pure
  generalize trimSpace token = token
  generalize trimSpace code = code
  refine runs_bind_fact (fun a => ∀ id, a = some id → trimSpace id = id)
    (runs_aside fun s hinv => ?_) fun found hfound => ?_
  · split
    · exact ⟨hinv.mild_less s.db.sessions s.challenges (fun _ _ h => h) fun _ _ h => h, rfl, rfl, nofun⟩
    rename_i c hc
    split_ifs
    · refine ⟨hinv.mild_less s.db.sessions (s.challenges.write token none) (fun _ _ h => h)
        fun token' c' h => ?_, rfl, rfl, nofun⟩
      rw [get_write] at h
      split_ifs at h
      exact h
    · refine ⟨hinv.mild_less s.db.sessions s.challenges (fun _ _ h => h) fun _ _ h => h, rfl, rfl,
        fun id hid => ?_⟩
      cases hid
      exact (hinv.sound.challenges token c hc).2.2.1
  rcases found with _ | u
  · exact lawful_pure
  have htrim := hfound u rfl
  refine lawful_underLock htrim (inner_bind (inner_consumeChallenge token) fun taken => ?_)
  rcases taken with _ | c
  · exact body_pure
  dsimp only
  split_ifs with huser
  · exact body_pure
  have hverified : Keeps t u (Verified t u c.stamp (some token)) := keeps_verified _ _
  have hcarry : ∀ s, Taken t u token (some c) s → Verified t u c.stamp (some token) s := by
    intro s hs
    obtain ⟨hhand, hsince⟩ := hs c rfl (not_not.1 huser)
    exact ⟨hsince, nofun, fun tok htok => some.inj htok ▸ hhand⟩
  refine inner_of_imp hcarry (inner_bind (inner_look hverified) fun p => ?_)
  obtain ⟨user, -⟩ := p
  rcases user with _ | user
  · exact body_pure
  refine inner_bind (inner_checkSecondFactor hverified user code) fun accepted => ?_
  cases accepted with
  | true => exact body_completeLogin htrim tokenHash c.stamp (some token)
  | false => exact body_pure

theorem lawful_selfService {cookie : String} {body : String → User → Program Unit}
    (hbody : ∀ u user, trimSpace u = u → Body t u (fun _ => True) (body u user)) :
    Lawful t (selfService t cookie body) := by
  refine runs_bind_fact (fun a => ∀ p, a = some p → trimSpace p.2.userID = p.2.userID)
    (runs_look fun s hinv p hp => ?_) fun found hfound => ?_
  · obtain ⟨i, -, hmap⟩ := bind_eq_some_iff.1 hp
    obtain ⟨r, hr, rfl⟩ := map_eq_some_iff.1 hmap
    exact (hinv.sound.sessions i r hr).2
  rcases found with _ | p
  · exact lawful_pure
  have htrim := hfound p rfl
  refine runs_bind_fact (fun _ => True) (runs_look fun _ _ => trivial) fun user _ => ?_
  cases user
  · exact lawful_pure
  refine lawful_underLock htrim (inner_bind (inner_look (keeps_pure True)) fun q => ?_)
  obtain ⟨user, -⟩ := q
  cases user with
  | none => exact body_pure
  | some user => exact hbody _ user htrim

variable (cookie : String)

theorem lawful_handleChangePassword (current new : String) :
    Lawful t (handleChangePassword crypto t cookie current new) := by
  unfold handleChangePassword
  split_ifs
  · exact lawful_pure
  refine lawful_selfService fun u user htrim => ?_
  split_ifs
  · exact body_applyChange htrim _ fun _ db => gentle_updateUser htrim db _
  · exact body_pure

theorem lawful_handle2FASetup (secret : String) : Lawful t (handle2FASetup t cookie secret) := by
  refine lawful_selfService fun u user htrim => ?_
  split_ifs
  · exact body_pure
  · refine inner_atomically (keeps_pure True) (fun _ => keeps_pure True) fun s hinv _ => ?_
    have hgentle : Gentle u s.db (setUserTOTPSecret s.db u secret) := gentle_updateUser htrim _ _
    exact ⟨(hgentle.mild hinv.sound htrim).acts hinv rfl rfl, trivial⟩

theorem lawful_handle2FAVerify (code : String) (recoveryCodes : List String) :
    Lawful t (handle2FAVerify crypto t cookie code recoveryCodes) := by
  unfold handle2FAVerify
  split_ifs
  · exact lawful_pure
  refine lawful_selfService fun u user htrim => ?_
  split_ifs
  · exact body_pure
  generalize user.totpSecret.bind crypto.decryptTOTPSecret = secret
  rcases secret with _ | secret
  · exact body_pure
  refine inner_bind (inner_look (keeps_pure True)) fun valid => ?_
  split_ifs
  · exact body_applyChange htrim _ fun _ db => gentle_updateUser htrim db _
  · exact body_pure

theorem lawful_withSecondFactor (code : String) {f : String → Db → Db}
    (hf : ∀ u db, trimSpace u = u → Gentle u db (f u db)) :
    Lawful t (withSecondFactor crypto t cookie code f) := by
  unfold withSecondFactor
  split_ifs
  · exact lawful_pure
  refine lawful_selfService fun u user htrim => ?_
  split_ifs
  · exact body_pure
  refine inner_bind (inner_checkSecondFactor (keeps_pure True) user _) fun accepted => ?_
  cases accepted with
  | true => exact body_applyChange htrim _ fun _ db => hf u db htrim
  | false => exact body_pure

theorem lawful_handleDeleteOwnAccount : Lawful t (handleDeleteOwnAccount t cookie) := by
  refine lawful_selfService fun u user htrim => ?_
  split_ifs
  · exact body_pure
  · exact body_applyChange htrim _ fun _ db => gentle_deleteUser htrim db

theorem lawful_resetPassword (id password : String) (allowed : Bool) :
    Lawful t (resetPassword crypto t id password allowed) := by
  have htrim := trimSpace_trimSpace id
  unfold resetPassword
  generalize trimSpace id = u at htrim
  by_cases hblank : u = ""
  · rw [if_pos hblank]
    exact lawful_pure
  rw [if_neg hblank]
  refine lawful_underLock htrim (inner_bind (inner_look (keeps_pure True)) fun q => ?_)
  obtain ⟨user, -⟩ := q
  rcases user with _ | user
  · exact body_pure
  cases allowed with
  | true => exact body_applyChange htrim _ fun _ db => gentle_updateUser htrim db _
  | false => exact body_pure

theorem lawful_handleDeleteUser (id : String) (allowed : Bool) :
    Lawful t (handleDeleteUser t id allowed) := by
  have htrim := trimSpace_trimSpace id
  unfold handleDeleteUser
  generalize trimSpace id = u at htrim
  split_ifs
  · exact lawful_pure
  refine lawful_underLock htrim (inner_bind (inner_look (keeps_pure True)) fun q => ?_)
  obtain ⟨user, -⟩ := q
  rcases user with _ | user
  · exact body_pure
  dsimp only
  split_ifs
  · exact body_pure
  · exact body_applyChange htrim _ fun _ db => gentle_deleteUser htrim db

theorem lawful_handleUserSessions (userID : String) (allowed : Bool) :
    Lawful t (handleUserSessions t userID allowed) := by
  unfold handleUserSessions
  split_ifs
  · exact lawful_pure
  refine runs_underLock _ t userID (fun _ hallowed => hallowed) fun htrim => ?_
  refine inner_bind (inner_look (keeps_pure True)) fun q => ?_
  obtain ⟨user, -⟩ := q
  dsimp only
  split_ifs
  · exact body_pure
  · exact body_applyChange htrim _ fun _ db => gentle_refl userID db

theorem lawful_program (task : Task) : Lawful t (program crypto t task) := by
  cases task with
  | login username password token tokenHash =>
    exact lawful_handleAuthLogin username password token tokenHash
  | login2FA token code tokenHash => exact lawful_handleLogin2FA token code tokenHash
  | changePassword cookie current new => exact lawful_handleChangePassword cookie current new
  | setup2FA cookie secret => exact lawful_handle2FASetup cookie secret
  | verify2FA cookie code recoveryCodes => exact lawful_handle2FAVerify cookie code recoveryCodes
  | disable2FA cookie code | recoveryCodes cookie code recoveryCodes =>
    exact lawful_withSecondFactor cookie code fun u db htrim => gentle_updateUser htrim db _
  | deleteOwnAccount cookie => exact lawful_handleDeleteOwnAccount cookie
  | resetPassword id password allowed => exact lawful_resetPassword id password allowed
  | deleteUser id allowed => exact lawful_handleDeleteUser id allowed
  | revokeSessions userID allowed => exact lawful_handleUserSessions userID allowed

end LabTether.Login
