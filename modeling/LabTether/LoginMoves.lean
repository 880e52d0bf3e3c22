import LabTether.Login

/-!
What the sign-ins and changes do to the data of the users. A task changes the credentials, the
challenges and the recorded sessions of a user only under the lock of the user; `Calm` is what
the holder of the lock has to expect from the others. Expired sessions that a change leaves in
the table are no sessions: nothing admits them.
-/
namespace LabTether.Login

open GoStrings SignIn KeyedLock List Rows

section

def Since (u : String) (n : ℕ) (s : Shared) : Prop :=
  n ≤ s.changes.length ∧ ∀ m ch, n ≤ m → s.changes[m]? = some ch → ch.userID ≠ u

def NoChallenge (u : String) (s : Shared) : Prop :=
  ∀ token c, s.challenges.get token = some c → c.userID ≠ u

/-- The recorded sessions of the user have expired, or are the retained one or in the list. -/
def Cleared (u : String) (retained : Option String) (sessions : List ℕ) (s : Shared) : Prop :=
  ∀ c ∈ s.created, c.userID = u → ∀ r, s.db.sessions.get c.session = some r →
    r.expiresAt ≤ s.now ∨ retained = some r.tokenHash ∨ c.session ∈ sessions

/-- The challenges that sign-ins have turned into sessions. -/
def Shared.tokens (s : Shared) : List String := s.created.filterMap Creation.token

/-- The task has taken the challenge and made no session of it yet. -/
def InHand (t : ℕ) (token : String) (s : Shared) : Prop := (token, t) ∈ s.taken ∧ token ∉ s.tokens

def Shared.holds (s : Shared) (t : ℕ) (u : String) : Prop :=
  ∃ i e : ℕ, s.uses[i]? = some (⟨t, u, .inside e⟩ : Use)

def Shared.threads (s : Shared) : List (String × Place) := s.uses.map fun use => (use.key, use.place)

/-- The tables, the challenges and the records fit together. -/
structure Sound (s : Shared) : Prop where
  users : ∀ u row, s.db.users.get u = some row → trimSpace u = u
  sessions : ∀ i r, s.db.sessions.get i = some r → i < s.nextSession ∧ trimSpace r.userID = r.userID
  challenges : ∀ token c, s.challenges.get token = some c → token ∈ s.issued ∧
    token ∉ s.taken.map Prod.fst ∧ trimSpace c.userID = c.userID ∧ Since c.userID c.stamp s
  taken : ∀ p ∈ s.taken, p.1 ∈ s.issued
  takenOnce : (s.taken.map Prod.fst).Nodup
  created : ∀ c ∈ s.created, c.session < s.nextSession ∧ c.stamp ≤ s.changes.length ∧
    ∀ r, s.db.sessions.get c.session = some r → r.userID = c.userID
  tokensOnce : s.tokens.Nodup
  tokens : ∀ token ∈ s.tokens, token ∈ s.taken.map Prod.fst
  unprotected : ∀ c ∈ s.created, c.token = none → c.enabled = false
  kept : ∀ c ∈ s.created, ∀ r, s.db.sessions.get c.session = some r → ∀ m ch, c.stamp ≤ m →
    s.changes[m]? = some ch → ch.userID = c.userID →
    r.expiresAt ≤ s.now ∨ ch.retained = some r.tokenHash

structure Inv (s : Shared) : Prop where
  locks : KeyedLock.Inv s.locks s.threads
  sound : Sound s

/-- What no move takes back. -/
structure Onward (s s' : Shared) : Prop where
  sessions : ∀ i r, s'.db.sessions.get i = some r → i < s.nextSession → s.db.sessions.get i = some r
  nextSession : s.nextSession ≤ s'.nextSession
  now : s.now ≤ s'.now
  taken : s.taken ⊆ s'.taken

/-- What a move leaves of a user whose lock the mover does not hold. -/
structure Apart (u : String) (s s' : Shared) : Prop where
  enabled : s'.enabled u = s.enabled u
  challenges : ∀ token c, s'.challenges.get token = some c → c.userID = u →
    s.challenges.get token = some c
  created : ∀ c ∈ s'.created, c.userID = u → c ∈ s.created
  changes : ∃ new, s'.changes = s.changes ++ new ∧ ∀ ch ∈ new, ch.userID ≠ u

/-- A move of task `t` that touches only the users of `mine`. -/
structure Step (t : ℕ) (mine : String → Prop) (s s' : Shared) : Prop where
  onward : Onward s s'
  apart : ∀ u, ¬ mine u → Apart u s s'
  tokens : ∀ token ∈ s'.tokens, token ∈ s.tokens ∨ (token, t) ∈ s.taken

/-- What task `t` sees of user `u` while it holds the lock. -/
structure Calm (t : ℕ) (u : String) (s s' : Shared) : Prop where
  onward : Onward s s'
  apart : Apart u s s'
  hand : ∀ token, (token, t) ∈ s.taken → token ∈ s'.tokens → token ∈ s.tokens

variable {t t' : ℕ} {u : String} {s s' : Shared} {n : ℕ}

theorem Inv.holder (h : Inv s) (ht : s.holds t u) (ht' : s.holds t' u) : t = t' := by
  obtain ⟨i, e, hi⟩ := ht
  obtain ⟨j, e', hj⟩ := ht'
  have hi' : s.threads[i]? = some (u, .inside e) := by simp [Shared.threads, hi]
  have hj' : s.threads[j]? = some (u, .inside e') := by simp [Shared.threads, hj]
  have hij := h.locks.exclusive hi' hj'
  rw [hij, hj, Option.some.injEq, Use.mk.injEq] at hi
  exact hi.1.symm

theorem Apart.since (h : Apart u s s') (hs : Since u n s) : Since u n s' := by
  obtain ⟨new, hnew, hother⟩ := h.changes
  rw [Since, hnew]
  refine ⟨?_, fun m ch hm hch => ?_⟩
  · have := hs.1
    rw [length_append]
    omega
  rw [getElem?_append] at hch
  split_ifs at hch
  · exact hs.2 m ch hm hch
  · exact hother ch (mem_of_getElem? hch)

theorem Apart.noChallenge (h : Apart u s s') (hs : NoChallenge u s) : NoChallenge u s' :=
  fun token c hc hu => hs token c (h.challenges token c hc hu) hu

theorem Calm.cleared (h : Calm t u s s') (hsound : Sound s) {retained : Option String}
    {sessions : List ℕ} (hs : Cleared u retained sessions s) : Cleared u retained sessions s' := by
  intro c hc hu r hr
  have hc' := h.apart.created c hc hu
  have hr' := h.onward.sessions c.session r hr (hsound.created c hc').1
  have hnow := h.onward.now
  rcases hs c hc' hu r hr' with hexpired | hrest
  · exact .inl (hexpired.trans hnow)
  · exact .inr hrest

variable {token : String}

theorem Calm.inHand (h : Calm t u s s') (hs : InHand t token s) :
    InHand t token s' :=
  ⟨h.onward.taken hs.1, fun hmem => hs.2 (h.hand token hs.1 hmem)⟩

theorem Sound.taker (h : Sound s) (ht : (token, t) ∈ s.taken) (ht' : (token, t') ∈ s.taken) :
    t = t' :=
  congrArg Prod.snd (inj_on_of_nodup_map h.takenOnce ht ht' rfl)

theorem Step.calm (h : Step t' (fun v => s.holds t' v) s s') (hinv : Inv s) (hne : t' ≠ t)
    (hholds : s.holds t u) : Calm t u s s' where
  onward := h.onward
  apart := h.apart u fun hother => hne (hinv.holder hother hholds)
  hand token htoken hmem :=
    (h.tokens token hmem).resolve_right fun hother => hne (hinv.sound.taker hother htoken)

end

section

variable {t : ℕ} {u : String} {s s' : Shared} {mine : String → Prop}

/-- A move that records nothing and only takes sessions and challenges away. -/
structure Mild (mine : String → Prop) (s s' : Shared) : Prop where
  users : ∀ v row, s'.db.users.get v = some row → trimSpace v = v
  enabled : ∀ v, ¬ mine v → s'.enabled v = s.enabled v
  sessions : ∀ i r, s'.db.sessions.get i = some r → s.db.sessions.get i = some r
  challenges : ∀ token c, s'.challenges.get token = some c → s.challenges.get token = some c
  now : s.now ≤ s'.now
  nextSession : s'.nextSession = s.nextSession
  issued : s'.issued = s.issued
  taken : s'.taken = s.taken
  created : s'.created = s.created
  changes : s'.changes = s.changes

theorem Mild.sound (h : Mild mine s s') (hs : Sound s) : Sound s' where
  users := h.users
  sessions i r hr := by
    rw [h.nextSession]
    exact hs.sessions i r (h.sessions i r hr)
  challenges token c hc := by
    rw [h.issued, h.taken, Since, h.changes]
    exact hs.challenges token c (h.challenges token c hc)
  taken := by
    rw [h.taken, h.issued]
    exact hs.taken
  takenOnce := by
    rw [h.taken]
    exact hs.takenOnce
  created := by
    rw [h.created, h.nextSession, h.changes]
    intro c hc
    obtain ⟨hlt, hstamp, huser⟩ := hs.created c hc
    exact ⟨hlt, hstamp, fun r hr => huser r (h.sessions _ r hr)⟩
  tokensOnce := by
    rw [Shared.tokens, h.created]
    exact hs.tokensOnce
  tokens := by
    rw [Shared.tokens, h.created, h.taken]
    exact hs.tokens
  unprotected := by
    rw [h.created]
    exact hs.unprotected
  kept := by
    rw [h.created, h.changes]
    intro c hc r hr m ch hm hch hu
    have hnow := h.now
    rcases hs.kept c hc r (h.sessions _ r hr) m ch hm hch hu with hexpired | hretained
    · exact .inl (hexpired.trans hnow)
    · exact .inr hretained

theorem Mild.step (h : Mild mine s s') : Step t mine s s' where
  onward := ⟨fun i r hr _ => h.sessions i r hr, h.nextSession.ge, h.now, by simp [h.taken]⟩
  apart v hv := by
    refine ⟨h.enabled v hv, fun token c hc _ => h.challenges token c hc, ?_, [], ?_, by simp⟩
    · rw [h.created]
      exact fun c hc _ => hc
    · rw [h.changes, append_nil]
  tokens := by
    rw [Shared.tokens, h.created]
    exact fun token htoken => .inl htoken

variable {token : String} {c : Challenge}

theorem Sound.createChallenge (hs : Sound s)
    (hfresh : token ∉ s.issued) (htrim : trimSpace c.userID = c.userID)
    (hsince : Since c.userID c.stamp s) :
    Sound { s with
      issued := token :: s.issued, challenges := s.challenges.write token (some c) } := { hs with
  challenges token' c' hc' := by
    rcases write_cases hc' with hold | ⟨rfl, rfl⟩
    · obtain ⟨hissued, hrest⟩ := hs.challenges token' c' hold
      exact ⟨.tail _ hissued, hrest⟩
    · refine ⟨.head _, fun hmem => ?_, htrim, hsince⟩
      obtain ⟨p, hp, rfl⟩ := mem_map.1 hmem
      exact hfresh (hs.taken p hp)
  taken p hp := .tail _ (hs.taken p hp) }

theorem step_createChallenge (hmine : mine c.userID) : Step t mine s
      { s with issued := token :: s.issued, challenges := s.challenges.write token (some c) } where
  onward := ⟨fun _ _ hr _ => hr, le_rfl, le_rfl, fun _ h => h⟩
  apart v hv := by
    refine ⟨rfl, fun token' c' hc' hu => ?_, fun _ hc _ => hc, [], by simp, by simp⟩
    rcases write_cases hc' with hold | ⟨-, rfl⟩
    · exact hold
    · exact absurd (hu ▸ hmine) hv
  tokens _ htoken := .inl htoken

theorem Sound.takeChallenge (hs : Sound s) (hc : s.challenges.get token = some c) :
    Sound { s with
      challenges := s.challenges.write token none, taken := (token, t) :: s.taken } := { hs with
  challenges token' c' hc' := by
    rw [get_write] at hc'
    split_ifs at hc' with hne
    obtain ⟨hissued, htaken, hrest⟩ := hs.challenges token' c' hc'
    refine ⟨hissued, ?_, hrest⟩
    rw [map_cons, mem_cons, not_or]
    exact ⟨hne, htaken⟩
  taken := forall_mem_cons.2 ⟨(hs.challenges token c hc).1, hs.taken⟩
  takenOnce := nodup_cons.2 ⟨(hs.challenges token c hc).2.1, hs.takenOnce⟩
  tokens token' htoken' := .tail _ (hs.tokens token' htoken') }

theorem step_takeChallenge : Step t mine s
      { s with challenges := s.challenges.write token none, taken := (token, t) :: s.taken } where
  onward := ⟨fun _ _ hr _ => hr, le_rfl, le_rfl, fun _ h => .tail _ h⟩
  apart v hv := by
    refine ⟨rfl, fun token' c' hc' hu => ?_, fun _ hc _ => hc, [], by simp, by simp⟩
    rw [get_write] at hc'
    split_ifs at hc'
    exact hc'
  tokens _ htoken := .inl htoken

theorem get_addSession {r : Session} {i : ℕ} (hi : i < s.nextSession) :
    (s.addSession r).db.sessions.get i = s.db.sessions.get i :=
  get_write_of_ne _ _ (by omega)

theorem Sound.addSession (hs : Sound s) {r : Session} (htrim : trimSpace r.userID = r.userID) :
    Sound (s.addSession r) := { hs with
  sessions i r' hr' := by
    show i < s.nextSession + 1 ∧ _
    rcases write_cases hr' with hold | ⟨rfl, rfl⟩
    · obtain ⟨hlt, htrim'⟩ := hs.sessions i r' hold
      exact ⟨by omega, htrim'⟩
    · exact ⟨by omega, htrim⟩
  created c hc := by
    obtain ⟨hlt, hstamp, huser⟩ := hs.created c hc
    refine ⟨Nat.lt_succ_of_lt hlt, hstamp, ?_⟩
    rw [get_addSession hlt]
    exact huser
  kept c hc := by
    rw [get_addSession (hs.created c hc).1]
    exact hs.kept c hc }

theorem Sound.record (hs : Sound s) {c : Creation} (hlt : c.session < s.nextSession)
    (huser : ∀ r, s.db.sessions.get c.session = some r → r.userID = c.userID)
    (hsince : Since c.userID c.stamp s) (hplain : c.token = none → c.enabled = false)
    (htoken : ∀ token, c.token = some token → InHand t token s) :
    Sound { s with created := s.created ++ [c] } := { hs with
  created := forall_mem_append.2 ⟨hs.created, forall_mem_singleton.2 ⟨hlt, hsince.1, huser⟩⟩
  tokensOnce := by
    rw [Shared.tokens, filterMap_append]
    rcases hc : c.token with _ | token
    · simp only [filterMap_cons, hc, filterMap_nil, append_nil]
      exact hs.tokensOnce
    simp only [filterMap_cons, hc, filterMap_nil]
    refine nodup_append.2 ⟨hs.tokensOnce, nodup_singleton _, ?_⟩
    rintro token' hold token'' hnew rfl
    rw [mem_singleton.1 hnew] at hold
    exact (htoken token hc).2 hold
  tokens token hmem := by
    rw [Shared.tokens, filterMap_append, mem_append] at hmem
    rcases hmem with hold | hnew
    · exact hs.tokens token hold
    · obtain ⟨c', hc', heq⟩ := mem_filterMap.1 hnew
      rw [mem_singleton.1 hc'] at heq
      exact mem_map.2 ⟨_, (htoken token heq).1, rfl⟩
  unprotected := forall_mem_append.2 ⟨hs.unprotected, forall_mem_singleton.2 hplain⟩
  kept := forall_mem_append.2 ⟨hs.kept, forall_mem_singleton.2
    fun r _ m ch hm hch hu => absurd hu (hsince.2 m ch hm hch)⟩ }

theorem Sound.change (hs : Sound s) {retained : Option String} (hno : NoChallenge u s)
    (hcleared : Cleared u retained [] s) :
    Sound { s with changes := s.changes ++ [⟨u, retained⟩] } := { hs with
  challenges token c hc := by
    obtain ⟨hissued, htaken, htrim, hsince⟩ := hs.challenges token c hc
    refine ⟨hissued, htaken, htrim, ?_⟩
    have hne := hno token c hc
    have happart : Apart c.userID s { s with changes := s.changes ++ [⟨u, retained⟩] } :=
      ⟨rfl, fun _ _ h _ => h, fun _ h _ => h, _, rfl, by simpa using hne.symm⟩
    exact happart.since hsince
  created c hc := by
    obtain ⟨hlt, hstamp, huser⟩ := hs.created c hc
    refine ⟨hlt, ?_, huser⟩
    rw [length_append]
    omega
  kept c hc r hr m ch hm hch hu := by
    rw [getElem?_append] at hch
    split_ifs at hch
    · exact hs.kept c hc r hr m ch hm hch hu
    have hch' := mem_singleton.1 (mem_of_getElem? hch)
    rw [hch'] at hu ⊢
    have hclear := hcleared c hc hu.symm r hr
    simpa using hclear }

end

end LabTether.Login
