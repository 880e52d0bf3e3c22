import LabTether.LoginRules

/-!
The bodies of the requests under the lock of their user. A sign-in carries `Since` from the
check of the password to the session or the challenge it makes, and a challenge carries it on;
a change ends when the challenges are gone and the sessions are cleared.
-/
namespace LabTether.Login

open GoStrings SignIn Pool.Process List Rows Shared

variable {t : ℕ} {u : String} {P : Shared → Prop} {s s' : Shared}

theorem Mild.calm (h : Mild (fun _ => False) s s') : Calm t u s s' := by
  have hstep := h.step (t := t)
  refine ⟨hstep.onward, hstep.apart u not_false, fun token _ hmem => ?_⟩
  rwa [tokens, h.created] at hmem

theorem Mild.mono {mine mine' : String → Prop} (h : Mild mine s s') (himp : ∀ v, mine v → mine' v) :
    Mild mine' s s' :=
  { h with enabled := fun v hv => h.enabled v fun hm => hv (himp v hm) }

theorem inner_mild {α : Type} {f : Shared → α × Shared} (hP : Keeps t u P)
    (hf : ∀ s, Inv s → Mild (fun _ => False) s (f s).2 ∧ (f s).2.locks = s.locks ∧
      (f s).2.uses = s.uses) : Inner t u P (atomically .plain f) fun _ => P := by
  refine inner_atomically hP (fun _ => hP) fun s hinv hs => ?_
  obtain ⟨hmild, hlocks, huses⟩ := hf s hinv
  exact ⟨(hmild.mono fun _ h => h.elim).acts hinv hlocks huses, hP s _ hinv.sound hmild.calm hs⟩

theorem Inv.mild_less (hinv : Inv s) (sessions : Rows ℕ Session) (challenges : Rows String Challenge)
    (hsessions : ∀ i r, sessions.get i = some r → s.db.sessions.get i = some r)
    (hchallenges : ∀ token c, challenges.get token = some c → s.challenges.get token = some c) :
    Mild (fun _ => False) s
      { s with db := { s.db with sessions := sessions }, challenges := challenges } :=
  ⟨hinv.sound.users, fun _ _ => rfl, hsessions, hchallenges, le_rfl, rfl, rfl, rfl, rfl, rfl⟩

variable {db : Db} {r : Session}

theorem get_deleteSessions {ids : List ℕ} {i : ℕ}
    (h : (deleteSessions db ids).sessions.get i = some r) : db.sessions.get i = some r ∧ i ∉ ids :=
  of_get_deleteAll h

theorem inner_readUser (htrim : trimSpace u = u) : Inner t u (fun _ => True) (readUser u)
      fun p s => Since u p.2 s ∧ ∀ user, p.1 = some user → s.enabled u = user.has2FA := by
  refine inner_read (keeps_pure True) (fun p => ?_) fun s _ _ => ?_
  · refine (keeps_since p.2).and fun s s' hs hc h user huser => ?_
    rw [hc.apart.enabled, h user huser]
  refine ⟨⟨le_rfl, fun m ch hm hch => ?_⟩, fun user huser => ?_⟩
  · have := (List.getElem?_eq_some_iff.1 hch).1
    omega
  have hrow : s.db.users.get (trimSpace u) = some user := huser
  rw [htrim] at hrow
  rw [enabled, hrow]
  rfl

theorem body_createChallenge (htrim : trimSpace u = u) (token : String) (n : ℕ) :
    Body t u (Since u n) (createChallenge u token n) := by
  refine inner_atomically (keeps_since n) (fun _ => keeps_pure True) fun s hinv hs => ?_
  split_ifs with hfresh
  · exact ⟨hinv.acts_refl, trivial⟩
  · exact ⟨⟨hinv.sound.createChallenge hfresh htrim hs, step_createChallenge rfl, rfl, rfl⟩, trivial⟩

/-- What a sign-in has established when it makes the session. -/
structure Verified (t : ℕ) (u : String) (n : ℕ) (token : Option String) (s : Shared) : Prop where
  since : Since u n s
  plain : token = none → s.enabled u = false
  hand : ∀ tok, token = some tok → InHand t tok s

theorem keeps_verified (n : ℕ) (token : Option String) : Keeps t u (Verified t u n token) :=
  fun _ _ _ hc h => ⟨hc.apart.since h.since, fun hn => hc.apart.enabled.trans (h.plain hn),
    fun tok htok => hc.inHand (h.hand tok htok)⟩

theorem step_completeLogin {c : Creation} (huser : c.userID = u)
    (hhand : ∀ tok, c.token = some tok → (tok, t) ∈ s.taken) :
    Step t (fun v => v = u) s { s.addSession r with created := s.created ++ [c] } where
  onward := by
    refine ⟨fun i r' hr' hi => ?_, Nat.le_succ _, le_rfl, fun _ h => h⟩
    rwa [← get_addSession hi]
  apart v hv := by
    refine ⟨rfl, fun _ _ h _ => h, fun c' hc' hu => ?_, [], (append_nil _).symm, by simp⟩
    rcases mem_append.1 hc' with hold | hnew
    · exact hold
    · rw [mem_singleton.1 hnew] at hu
      exact absurd (hu.symm.trans huser) hv
  tokens tok hmem := by
    rw [tokens, filterMap_append, mem_append] at hmem
    rcases hmem with hold | hnew
    · exact .inl hold
    · obtain ⟨c', hc', heq⟩ := mem_filterMap.1 hnew
      rw [mem_singleton.1 hc'] at heq
      exact .inr (hhand tok heq)

theorem body_completeLogin (htrim : trimSpace u = u) (tokenHash : String) (n : ℕ)
    (token : Option String) :
    Body t u (Verified t u n token) (completeLogin u tokenHash n token) := by
  refine inner_atomically (keeps_verified n token) (fun _ => keeps_pure True) fun s hinv hs => ?_
  split_ifs
  · exact ⟨hinv.acts_refl, trivial⟩
  refine ⟨⟨?_, step_completeLogin rfl fun tok htok => (hs.hand tok htok).1, rfl, rfl⟩, trivial⟩
  have hadded : Sound (s.addSession ⟨u, tokenHash, s.now + sessionDuration⟩) :=
    hinv.sound.addSession htrim
  refine hadded.record (Nat.lt_succ_self _) (fun r hr => ?_) hs.since hs.plain hs.hand
  rcases write_cases hr with hold | ⟨-, rfl⟩
  · exact absurd (hinv.sound.sessions _ r hold).1 (Nat.lt_irrefl _)
  · rfl

theorem inner_revokeForUser (u : String) :
    Inner t u (fun _ => True) (revokeForUser u) fun _ => NoChallenge u := by
  refine inner_atomically (keeps_pure True) (fun _ => keeps_noChallenge) fun s hinv _ => ?_
  have hless := hinv.mild_less s.db.sessions
    (s.challenges.deleteAll (s.challenges.select fun _ c => decide (c.userID = u)))
    (fun _ _ h => h) fun token c h => (of_get_deleteAll h).1
  refine ⟨(hless.mono fun _ h => h.elim).acts hinv rfl rfl, fun token c hc hu => ?_⟩
  obtain ⟨hold, hkept⟩ := of_get_deleteAll hc
  exact hkept (mem_select.2 ⟨c, hold, by simpa using hu⟩)

theorem Inv.mild_deleteSessions (hinv : Inv s) (ids : List ℕ) :
    Mild (fun _ => False) s { s with db := deleteSessions s.db ids } :=
  hinv.mild_less _ s.challenges (fun _ _ h => (get_deleteSessions h).1) fun _ _ h => h

theorem Cleared.deleteSessions {retained : Option String} {sessions rest ids : List ℕ}
    (h : Cleared u retained sessions s) (hrest : ∀ i ∈ sessions, i ∈ ids ∨ i ∈ rest) :
    Cleared u retained rest { s with db := deleteSessions s.db ids } := by
  intro c hc hu r hr
  obtain ⟨hr', hnot⟩ := get_deleteSessions hr
  rcases h c hc hu r hr' with hexpired | hretained | hlisted
  · exact .inl hexpired
  · exact .inr (.inl hretained)
  · exact .inr (.inr ((hrest _ hlisted).resolve_left hnot))

theorem inner_deleteEach (retained : Option String) (sessions : List ℕ) :
    Inner t u (fun s => NoChallenge u s ∧ Cleared u retained sessions s) (deleteEach sessions)
      fun _ s => NoChallenge u s ∧ Cleared u retained [] s := by
  have hkeeps : ∀ l, Keeps t u fun s => NoChallenge u s ∧ Cleared u retained l s :=
    fun l => keeps_noChallenge.and (keeps_cleared retained l)
  induction sessions with
  | nil => exact inner_pure (hkeeps []) fun _ h => h
  | cons i sessions ih =>
    refine inner_bind (inner_atomically (hkeeps _) (fun _ => hkeeps sessions) ?_) fun _ => ih
    intro s hinv hs
    have hmild := hinv.mild_deleteSessions [i]
    refine ⟨(hmild.mono fun _ h => h.elim).acts hinv rfl rfl, hs.1, hs.2.deleteSessions ?_⟩
    intro j hj
    rw [mem_singleton]
    exact mem_cons.1 hj

theorem Inv.cleared_sessionsOf (hinv : Inv s) (htrim : trimSpace u = u) (retained : Option String) :
    Cleared u retained (sessionsOf s.db u) s := by
  intro c hc hu r hr
  have huser := (hinv.sound.created c hc).2.2 r hr
  exact .inr (.inr (mem_sessionsOf.2 ⟨r, hr, by rw [huser, hu, htrim]⟩))

theorem Inv.cleared_others (hinv : Inv s) (htrim : trimSpace u = u) (tokenHash : String) :
    Cleared u (some tokenHash) (otherUserSessions s.db s.now u (some tokenHash)) s := by
  intro c hc hu r hr
  have huser := (hinv.sound.created c hc).2.2 r hr
  by_cases hexpired : r.expiresAt ≤ s.now
  · exact .inl hexpired
  by_cases hsame : tokenHash = r.tokenHash
  · exact .inr (.inl (by rw [hsame]))
  refine .inr (.inr (mem_filter.2 ⟨mem_select.2 ⟨r, hr, ?_⟩, ?_⟩))
  · rw [decide_eq_true_eq, huser, hu, htrim]
    exact ⟨rfl, by omega⟩
  · simpa [hr] using Ne.symm hsame

theorem inner_revokeOthers (htrim : trimSpace u = u) (cookie : Option String) :
    Inner t u (NoChallenge u) (revokeOthers u cookie)
      fun _ s => NoChallenge u s ∧ Cleared u cookie [] s := by
  cases cookie with
  | none =>
    refine inner_atomically keeps_noChallenge
      (fun _ => keeps_noChallenge.and (keeps_cleared none [])) fun s hinv hs => ?_
    have hmild := hinv.mild_deleteSessions (sessionsOf s.db u)
    refine ⟨(hmild.mono fun _ h => h.elim).acts hinv rfl rfl, hs, ?_⟩
    exact (hinv.cleared_sessionsOf htrim none).deleteSessions fun _ hi => .inl hi
  | some tokenHash =>
    refine inner_bind (Q := fun sessions s => NoChallenge u s ∧ Cleared u (some tokenHash) sessions s)
      (inner_read keeps_noChallenge
        (fun sessions => keeps_noChallenge.and (keeps_cleared (some tokenHash) sessions)) ?_)
      fun sessions => inner_deleteEach (some tokenHash) sessions
    exact fun s hinv hs => ⟨hs, hinv.cleared_others htrim tokenHash⟩

/-- A change of the tables that is about the user alone. -/
structure Gentle (u : String) (db db' : Db) : Prop where
  users : ∀ v, v ≠ u → db'.users.get v = db.users.get v
  sessions : ∀ i r, db'.sessions.get i = some r → db.sessions.get i = some r

theorem Gentle.mild (h : Gentle u s.db db) (hs : Sound s) (htrim : trimSpace u = u) :
    Mild (fun v => v = u) s { s with db := db } := by
  refine ⟨fun v row hrow => ?_, fun v hv => ?_, h.sessions, fun _ _ h => h, le_rfl, rfl, rfl,
    rfl, rfl, rfl⟩
  · by_cases hv : v = u
    · rw [hv, htrim]
    · exact hs.users v row ((h.users v hv).symm.trans hrow)
  · rw [enabled, enabled, h.users v hv]

theorem gentle_refl (u : String) (db : Db) : Gentle u db db := ⟨fun _ _ => rfl, fun _ _ h => h⟩

theorem gentle_updateUser (htrim : trimSpace u = u) (db : Db) (f : User → User) :
    Gentle u db (updateUser db u f) := by
  refine ⟨fun v hv => ?_, fun i r hr => by rwa [sessions_updateUser] at hr⟩
  unfold updateUser
  split
  · rfl
  · rw [get_write_of_ne _ _ (htrim.symm ▸ hv)]

theorem gentle_deleteUser (htrim : trimSpace u = u) (db : Db) : Gentle u db (deleteUser db u) := by
  refine ⟨fun v hv => get_write_of_ne _ _ (htrim.symm ▸ hv), fun i r hr => ?_⟩
  exact (get_deleteSessions hr).1

theorem body_applyChange (htrim : trimSpace u = u) (cookie : Option String) {f : ℕ → Db → Db}
    (hf : ∀ now db, Gentle u db (f now db)) :
    Body t u (fun _ => True) (applyChange u cookie f) := by
  refine inner_bind (inner_revokeForUser u) fun _ => inner_bind (inner_revokeOthers htrim cookie)
    fun _ => inner_atomically (keeps_noChallenge.and (keeps_cleared cookie []))
      (fun _ => keeps_pure True) fun s hinv hs => ?_
  have hchanged : Sound { s with changes := s.changes ++ [⟨u, cookie⟩] } :=
    hinv.sound.change hs.1 hs.2
  have hmild := (hf s.now s.db).mild (s := { s with changes := s.changes ++ [⟨u, cookie⟩] })
    hchanged htrim
  refine ⟨⟨?_, ?_, rfl, rfl⟩, trivial⟩
  · rw [htrim]
    exact hmild.sound hchanged
  rw [htrim]
  refine ⟨⟨fun i r hr _ => (hf s.now s.db).sessions i r hr, le_rfl, le_rfl,
    fun _ h => h⟩, fun v hv => ?_, fun _ h => .inl h⟩
  refine ⟨hmild.enabled v hv, fun _ _ h _ => h, fun _ h _ => h, _, rfl, ?_⟩
  simpa using Ne.symm hv

end LabTether.Login
