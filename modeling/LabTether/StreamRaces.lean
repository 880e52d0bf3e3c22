import LabTether.StreamSweep

/-!
The tasks keep to `Evolves`, and a removal ends with nothing open under its credential. The
proof of the sweep goes along its two loops: what is left to close is in the rest of the list.
-/
namespace LabTether.StreamGate

open SignIn Pool Pool.Process Transition List Option State

variable {t : ℕ} {k : PrincipalKey} {s s' : Shared} {i j : ℕ}

def Present (i : ℕ) (s : Shared) : Prop := ∃ o, s.owners[i]? = some o

/-- The owner is closed and has this connection, which it keeps. -/
def Held (i : ℕ) (conn : Option (Option ℕ)) (s : Shared) : Prop :=
  ∃ o, s.owners[i]? = some o ∧ o.closed = true ∧ o.conn = conn.join

theorem keeps_present (i : ℕ) : Keeps (Present i) := by
  rintro s s' - hE ⟨o, ho⟩
  obtain ⟨o', ho', -⟩ := hE.owners i o ho
  exact ⟨o', ho'⟩

theorem keeps_held (i : ℕ) (conn : Option (Option ℕ)) : Keeps (Held i conn) := by
  rintro s s' - hE ⟨o, ho, hclosed, hconn⟩
  obtain ⟨o', ho', hturn⟩ := hE.owners i o ho
  obtain ⟨hclosed', hconn'⟩ := hturn.closed hclosed
  exact ⟨o', ho', hclosed', hconn'.trans hconn⟩

variable {f : Owner → Owner}

theorem of_underEntry {α : Type} {look : Owner → α} {a : Option α}
    (h : s.underEntry i look f = some (a, s')) : (s.owners[i]? = none ∧ a = none ∧ s' = s) ∨
      ∃ o, s.owners[i]? = some o ∧ a = some (look o) ∧ s' = s.setOwner i f := by
  unfold Shared.underEntry at h
  split at h
  · rename_i hnone
    cases h
    exact .inl ⟨hnone, rfl, rfl⟩
  rename_i o ho
  split_ifs at h
  cases h
  exact .inr ⟨o, ho, rfl, rfl⟩

theorem runs_close {P : Shared → Prop} (hP : Keeps P) (hturns : ∀ o : Owner, o.Turns (f o))
    (hclosed : ∀ o, (f o).closed = true) (hconn : ∀ o, (f o).conn = o.conn)
    (hstage : ∀ o, (f o).stage = .done → o.stage = .done) :
    Runs t (fun s => Present i s ∧ P s) (await .plain fun s => s.underEntry i Owner.conn f)
      fun conn s => Held i conn s ∧ P s := by
  refine runs_await ((keeps_present i).and hP) (fun conn => (keeps_held i conn).and hP) ?_
  rintro s conn s' hinv ⟨⟨o, ho⟩, hs⟩ - hstep
  rcases of_underEntry hstep with ⟨hnone, -⟩ | ⟨o', ho', rfl, rfl⟩
  · rw [ho] at hnone
    cases hnone
  rw [ho, some.injEq] at ho'
  subst ho'
  have hE : Evolves s (s.setOwner i f) := by
    refine hinv.evolves_owner none f hturns (fun o _ _ => hclosed o) fun o₁ ho₁ hd c hc => ?_
    exact .inr (hinv.tidy.done i o₁ ho₁ (hstage o₁ hd) c (hconn o₁ ▸ hc))
  refine ⟨hE, ⟨f o, ?_, hclosed o, hconn o⟩, hP s _ hinv hE hs⟩
  rw [getElem?_setOwner, if_pos rfl, ho]
  rfl

theorem lawful_closeConn (c : ℕ) : Lawful t (closeConn c) := by
  refine lawful_atomically fun s hinv _ => ?_
  have hsame : (s.closeConn (some c)).setOwner 0 id = s.closeConn (some c) := by
    simp [Shared.setOwner]
  rw [← hsame]
  exact hinv.evolves_owner (some c) id .refl (hinv.tidy.closed 0)
    fun o ho hd c hc => .inr (hinv.tidy.done 0 o ho hd c hc)

theorem lawful_attach (conn i : ℕ) : Lawful t (attach conn i) := by
  refine runs_bind (runs_await keeps_true (fun _ => keeps_true) ?_) fun _ => lawful_pure _
  rintro s a s' hinv - - hstep
  refine ⟨?_, trivial⟩
  rcases of_underEntry hstep with ⟨-, -, rfl⟩ | ⟨o, ho, -, rfl⟩
  · exact hinv.evolves_refl
  refine hinv.evolves_owner none _ (fun o => ?_) (fun o ho => ?_) fun o ho => ?_
  · split_ifs with hclosed
    · exact .refl o
    · exact ⟨rfl, fun h => absurd h hclosed, fun h => h⟩
  · split_ifs with hclosed
    all_goals exact hinv.tidy.closed i o ho
  split_ifs with hclosed
  · exact fun hd c hc => .inr (hinv.tidy.done i o ho hd c hc)
  intro hd
  refine absurd (hinv.tidy.closed i o ho ?_) hclosed
  rw [hd]
  decide

theorem lawful_attachAll (conn : ℕ) (owners : List ℕ) : Lawful t (attachAll conn owners) := by
  induction owners with
  | nil => exact lawful_pure _
  | cons i owners ih =>
    refine runs_bind (lawful_attach conn i) fun attached => ?_
    cases attached with
    | true => exact ih
    | false => exact lawful_closeConn conn

theorem runs_cleanup (i : ℕ) : Runs t (Present i) (cleanup i) fun _ _ => True := by
  refine runs_bind (runs_of_imp (fun s hs => ⟨hs, trivial⟩) (runs_close keeps_true
    (fun o => ⟨rfl, fun _ => ⟨rfl, rfl⟩, nofun⟩) (fun _ => rfl) (fun _ => rfl) nofun)) fun conn => ?_
  have hheld : Keeps fun s => Held i conn s ∧ True := (keeps_held i conn).and keeps_true
  refine runs_bind (Q := fun _ s => Held i conn s ∧ True) ?_ fun _ => ?_
  · refine runs_atomically hheld (fun _ => hheld) fun s hinv hs _ => ?_
    obtain ⟨⟨o, ho, hclosed, -⟩, -⟩ := id hs
    have hE : Evolves s (s.setOwner i fun o => { o with stage := .unindexed }) := by
      refine hinv.evolves_owner none _ (fun o => ⟨rfl, fun h => ⟨h, rfl⟩, nofun⟩) ?_ nofun
      intro o' ho' _
      rw [ho, some.injEq] at ho'
      subst ho'
      exact hclosed
    exact ⟨hE, hheld s _ hinv hE hs⟩
  · refine runs_atomically hheld (fun _ => keeps_true) ?_
    rintro s hinv ⟨⟨o, ho, hclosed, hconn⟩, -⟩ -
    refine ⟨hinv.evolves_owner conn.join _ (fun o => ⟨rfl, fun h => ⟨h, rfl⟩, nofun⟩) ?_ ?_, trivial⟩
    · intro o' ho' _
      rw [ho, some.injEq] at ho'
      subst ho'
      exact hclosed
    · intro o' ho' _ c hc
      rw [ho, some.injEq] at ho'
      subst ho'
      exact .inl (hconn.symm.trans hc)

theorem runs_register (id : String) (principals : List PrincipalKey) (parents : List ℕ) :
    Runs t (fun _ => True) (register id principals parents)
      fun a s => ∀ i, a = some i → Present i s := by
  refine runs_atomically keeps_true ?_ ?_
  · exact fun a s s' hinv hE hs i hi => keeps_present i s s' hinv hE (hs i hi)
  intro s hinv _ hallowed
  split_ifs
  · exact ⟨hinv.evolves_refl, nofun⟩
  · refine ⟨hinv.evolves_open hallowed rfl, fun i hi => ?_⟩
    cases hi
    exact ⟨_, getElem?_concat_length⟩

section

theorem lawful_lockEntry (id : String) : Lawful t (lockEntry id) := by
  refine runs_await keeps_true (fun _ => keeps_true) fun s a s' hinv _ _ hstep => ⟨?_, trivial⟩
  split_ifs at hstep
  cases hstep
  exact hinv.evolves_same rfl rfl rfl (fun _ h => h) fun _ h => .inl h

theorem lawful_unlockEntry (id : String) : Lawful t (unlockEntry id) :=
  lawful_aside fun _ => ⟨rfl, rfl, rfl, fun _ h => h, rfl⟩

theorem lawful_newConn : Lawful t newConn :=
  lawful_aside fun _ => ⟨rfl, rfl, rfl, fun _ h => h, rfl⟩

theorem lawful_openStreams (principals : List PrincipalKey) (ids : List String)
    (owners : List ℕ) : Lawful t (openStreams principals ids owners) := by
  induction ids generalizing owners with
  | nil => exact runs_bind lawful_newConn fun conn => lawful_attachAll conn owners
  | cons id ids ih =>
    refine runs_bind (lawful_lockEntry id) fun _ => runs_bind lawful_read fun found => ?_
    cases found
    · exact lawful_unlockEntry id
    refine runs_bind (runs_register id principals owners) fun i => ?_
    rcases i with _ | i
    · exact runs_of_imp (fun _ _ => trivial) (lawful_unlockEntry id)
    refine runs_of_imp (fun s hs => hs i rfl) ?_
    refine runs_bind (lawful_keeps (lawful_unlockEntry id) (keeps_present i)) fun _ => ?_
    refine runs_bind (lawful_keeps (ih (owners ++ [i])) (keeps_present i)) fun _ => ?_
    exact runs_cleanup i

variable {validScopes : List String → Bool}

theorem lawful_withAuth (credential : Credential) : Lawful t (withAuth validScopes credential) := by
  cases credential with
  | ownerToken => exact lawful_pure _
  | cookie tokenHash =>
    refine runs_bind lawful_read fun session => ?_
    cases session with
    | none => exact lawful_pure _
    | some p => exact runs_bind lawful_read fun _ => lawful_pure _
  | apiKey secretHash =>
    refine runs_bind lawful_read fun found => ?_
    rcases found with _ | ⟨⟨id, key⟩, now⟩
    · exact lawful_pure _
    dsimp only
    split_ifs
    · exact lawful_pure _
    · exact runs_bind lawful_read fun _ => lawful_pure _

theorem lawful_ticketActive (ticket : StreamTicket) : Lawful t (ticketActive ticket) := by
  unfold ticketActive
  split_ifs
  · exact lawful_pure _
  split
  · exact lawful_read
  · refine runs_bind lawful_read fun user => ?_
    split_ifs
    · exact lawful_read
    · exact lawful_pure _
  · exact lawful_pure _

theorem lawful_redeem
    (take : ℕ → Rows String StreamTicket → Option StreamTicket × Rows String StreamTicket) :
    Lawful t (redeem take) := by
  refine runs_bind (lawful_aside fun _ => ⟨rfl, rfl, rfl, fun _ h => h, rfl⟩) fun taken => ?_
  cases taken with
  | none => exact lawful_pure _
  | some ticket => exact runs_bind (lawful_ticketActive ticket) fun _ => lawful_pure _

theorem lawful_authStream (auth : StreamAuth) : Lawful t (authStream validScopes auth) := by
  cases auth with
  | ticket sessionID name =>
    unfold authStream
    exact lawful_redeem _
  | credential credential => exact runs_bind (lawful_withAuth credential) fun _ => lawful_pure _

theorem lawful_authEvents (auth : EventAuth) : Lawful t (authEvents validScopes auth) := by
  cases auth with
  | ticket name =>
    unfold authEvents
    exact lawful_redeem _
  | cookie tokenHash => exact runs_bind lawful_read fun _ => lawful_pure _
  | ownerToken => exact lawful_pure _
  | authenticated credential =>
    refine runs_bind (lawful_withAuth credential) fun principal => ?_
    cases principal with
    | none | some p => exact lawful_pure _

theorem lawful_handleSessionStream (auth : StreamAuth) (persistentID : Option String)
    (sessionID : String) :
    Lawful t (handleSessionStream validScopes auth persistentID sessionID) := by
  refine runs_bind (lawful_authStream auth) fun principals => ?_
  cases principals with
  | none => exact lawful_pure _
  | some principals => exact lawful_openStreams principals _ []

theorem lawful_registerWithPrincipals (conn : ℕ) (principals : List PrincipalKey) :
    Lawful t (registerWithPrincipals conn principals) := by
  refine lawful_atomically fun s hinv hallowed => ?_
  refine hinv.evolves_clients none ?_ ?_ ?_
  · exact fun j c hc => ⟨c, concat_of_some hc, rfl, fun h => h⟩
  · intro j c hc hnone
    rcases concat_cases hc with hold | ⟨-, rfl⟩
    · rw [hnone] at hold
      cases hold
    · exact hallowed
  · intro j c hc hr
    rcases concat_cases hc with hold | ⟨-, rfl⟩
    · exact .inr (hinv.tidy.unregistered j c hold hr)
    · cases hr

theorem Inv.evolves_unregister (hinv : Inv s) (j : ℕ) : Evolves s (s.unregister j) := by
  unfold Shared.unregister
  split
  · exact hinv.evolves_refl
  rename_i c hc
  split_ifs
  · refine hinv.evolves_clients (some c.conn) ?_ ?_ ?_
    · intro j' c' hc'
      rw [getElem?_modify, hc']
      split_ifs
      · exact ⟨_, rfl, rfl, nofun⟩
      · exact ⟨c', rfl, rfl, fun h => h⟩
    · intro j' c' hc' hnone
      simp [getElem?_modify, hnone] at hc'
    intro j' c' hc' hr
    rw [getElem?_modify] at hc'
    obtain ⟨c₀, hc₀, rfl⟩ := map_eq_some_iff.1 hc'
    by_cases hj : j = j'
    · subst hj
      rw [hc, some.injEq] at hc₀
      subst hc₀
      simp
    · rw [if_neg hj] at hr ⊢
      exact .inr (hinv.tidy.unregistered j' c₀ hc₀ hr)
  · exact hinv.evolves_refl

theorem registered_unregister {c : Client} (h : (s.unregister j).clients[j]? = some c) :
    c.registered = false := by
  unfold Shared.unregister at h
  split at h
  · rename_i hnone
    rw [hnone] at h
    cases h
  rename_i c₀ hc₀
  split_ifs at h with hr
  · simp only [getElem?_modify, hc₀] at h
    cases h
    rfl
  · rw [hc₀] at h
    cases h
    simpa using hr

theorem lawful_unregister (j : ℕ) : Lawful t (unregister j) :=
  lawful_atomically fun _ hinv _ => hinv.evolves_unregister j

theorem lawful_handleBrowserEvents (auth : EventAuth) :
    Lawful t (handleBrowserEvents validScopes auth) := by
  refine runs_bind (lawful_authEvents auth) fun principals => ?_
  cases principals with
  | none => exact lawful_pure _
  | some principals =>
    refine runs_bind lawful_newConn fun conn => ?_
    exact runs_bind (lawful_registerWithPrincipals conn principals) fun j => lawful_unregister j

end

section

theorem matchesAny_of_mem {keys principals : List PrincipalKey} (hk : k ∈ keys)
    (hmem : k ∈ principals) : matchesAny keys principals = true :=
  any_eq_true.2 ⟨k, hmem, by simpa using hk⟩

variable {keys : List PrincipalKey}

theorem Inv.left_collectOwners (hinv : Inv s) (hk : k ∈ keys) :
    s.Left k (collectOwners keys s) := by
  intro i o ho hmem
  by_cases hindexed : o.stage.indexed = true
  · refine .inl (mem_filter.2 ⟨?_, ?_⟩)
    · exact mem_range.2 (List.getElem?_eq_some_iff.1 ho).1
    · simp [ho, hindexed, matchesAny_of_mem hk hmem]
  · have hstage : o.stage ≠ .serving := fun h => hindexed (by rw [h]; rfl)
    exact .inr ⟨hinv.tidy.closed i o ho hstage, fun h => absurd h hstage⟩

theorem joined_collectClients (hk : k ∈ keys) : s.Joined k (collectClients keys s) := by
  intro j c hc hmem hr
  refine mem_filter.2 ⟨mem_range.2 (List.getElem?_eq_some_iff.1 hc).1, ?_⟩
  simp [hc, hr, matchesAny_of_mem hk hmem]

/-- What is left to close while the owners of the list are to come. -/
def ToRetire (k : PrincipalKey) (owners : List ℕ) (s : Shared) : Prop :=
  (k ∈ s.deleted ∧ s.Left k owners) ∧ ∀ i ∈ owners, Present i s

theorem keeps_toRetire (k : PrincipalKey) (owners : List ℕ) : Keeps (ToRetire k owners) :=
  (keeps_left k owners).and fun s s' hinv hE hs i hi => keeps_present i s s' hinv hE (hs i hi)

theorem runs_retire (i : ℕ) (owners : List ℕ) :
    Runs t (ToRetire k (i :: owners)) (retire i) fun _ => ToRetire k owners := by
  have hleft := keeps_toRetire k (i :: owners)
  refine runs_bind (runs_of_imp (fun s hs => ⟨hs.2 i mem_cons_self, hs⟩) (runs_close hleft
    (fun o => ⟨rfl, fun _ => ⟨rfl, rfl⟩, fun h => h⟩) (fun _ => rfl) (fun _ => rfl)
    fun _ h => h)) fun conn => ?_
  refine runs_atomically ((keeps_held i conn).and hleft) (fun _ => keeps_toRetire k owners) ?_
  rintro s hinv ⟨⟨o, ho, hclosed, hconn⟩, hs⟩ -
  have hE : Evolves s ((s.closeConn conn.join).setOwner i fun o => { o with cancelled := true }) :=
    hinv.evolves_owner conn.join _ (fun o => ⟨rfl, fun h => ⟨h, rfl⟩, fun h => h⟩)
      (fun o ho => hinv.tidy.closed i o ho)
      fun o ho hd c hc => .inr (hinv.tidy.done i o ho hd c hc)
  obtain ⟨⟨hdeleted, hleft'⟩, hpresent⟩ := hleft s _ hinv hE hs
  refine ⟨hE, ⟨hdeleted, fun i' o' ho' hmem => ?_⟩, fun i' hi' =>
    hpresent i' (mem_cons_of_mem i hi')⟩
  rcases hleft' i' o' ho' hmem with hi' | hshut
  · rcases mem_cons.1 hi' with rfl | hi'
    · -- This owner was closed by the section, and its connection is closed here.
      rw [getElem?_setOwner, if_pos rfl] at ho'
      have hsame : s.owners[i']?.map (fun o => { o with cancelled := true }) = some o' := ho'
      rw [ho, map_some, some.injEq] at hsame
      subst hsame
      exact .inr ⟨hclosed, fun _ c hc => mem_closeConn.2 (.inl (hconn.symm.trans hc))⟩
    · exact .inl hi'
  · exact .inr hshut

theorem runs_unregister (j : ℕ) (clients : List ℕ) :
    Runs t (fun s => k ∈ s.deleted ∧ s.Joined k (j :: clients)) (unregister j)
      fun _ s => k ∈ s.deleted ∧ s.Joined k clients := by
  refine runs_atomically (keeps_joined k _) (fun _ => keeps_joined k clients) ?_
  intro s hinv hs _
  have hE := hinv.evolves_unregister j
  obtain ⟨hdeleted, hjoined⟩ := keeps_joined k _ s _ hinv hE hs
  refine ⟨hE, hdeleted, fun j' c hc hmem hr => ?_⟩
  rcases mem_cons.1 (hjoined j' c hc hmem hr) with rfl | hj'
  · rw [registered_unregister hc] at hr
    cases hr
  · exact hj'

theorem runs_revokeStreams (hk : k ∈ keys) : Runs t (fun s => k ∈ s.deleted) (revokeStreams keys)
      fun _ s => (k ∈ s.deleted ∧ s.Left k []) ∧ k ∈ s.deleted ∧ s.Joined k [] := by
  have hdeleted : Keeps fun s => k ∈ s.deleted := fun s s' _ hE hs => hE.deleted hs
  have hretired := keeps_left k []
  have hboth : ∀ clients, Keeps fun s =>
      (k ∈ s.deleted ∧ s.Left k []) ∧ k ∈ s.deleted ∧ s.Joined k clients :=
    fun clients => hretired.and (keeps_joined k clients)
  refine runs_bind (lawful_keeps (lawful_aside fun _ => ⟨rfl, rfl, rfl, fun _ h => h, rfl⟩)
    hdeleted) fun _ => ?_
  refine runs_bind (Q := ToRetire k) (runs_read hdeleted (keeps_toRetire k) ?_) fun owners => ?_
  · intro s hinv hs
    refine ⟨⟨hs, hinv.left_collectOwners hk⟩, fun i hi => ?_⟩
    have hlt := mem_range.1 (mem_filter.1 hi).1
    exact ⟨_, getElem?_eq_getElem hlt⟩
  refine runs_bind (runs_forEach (keeps_toRetire k []) runs_retire owners) fun _ => ?_
  refine runs_bind (runs_of_imp (fun s hs => hs.1) (runs_read hretired hboth ?_)) fun clients => ?_
  · exact fun s _ hs => ⟨hs, hs.1, joined_collectClients hk⟩
  · exact runs_forEach (P := fun clients s =>
      (k ∈ s.deleted ∧ s.Left k []) ∧ k ∈ s.deleted ∧ s.Joined k clients) (hboth [])
      (fun j js => runs_frame hretired (runs_unregister j js)) clients

theorem runs_delete (key : PrincipalKey) (f : Db → Db) :
    Runs t (fun _ => True) (delete key f) fun _ s => key ∈ s.deleted := by
  refine runs_atomically keeps_true (fun _ s s' _ hE hs => hE.deleted hs) fun s hinv _ _ => ?_
  refine ⟨hinv.evolves_same rfl rfl rfl ?_ fun _ h => .inl h, .head _⟩
  exact fun k hk => .tail _ hk

theorem runs_finish (key : PrincipalKey) :
    Runs t (fun s => (key ∈ s.deleted ∧ s.Left key []) ∧ key ∈ s.deleted ∧ s.Joined key [])
      (finish key) fun _ _ => True := by
  refine runs_atomically ((keeps_left key []).and (keeps_joined key [])) (fun _ => keeps_true) ?_
  rintro s hinv ⟨⟨hdeleted, hleft⟩, -, hjoined⟩ -
  refine ⟨hinv.evolves_same rfl rfl rfl (fun _ h => h) fun k hk => ?_, trivial⟩
  rcases mem_cons.1 hk with rfl | hk
  · exact .inr ⟨hdeleted, hleft, hjoined⟩
  · exact .inl hk

/-- A removal: the credential is deleted, then everything under its keys is closed. -/
theorem lawful_removal {key : PrincipalKey} {f : Db → Db} (hk : key ∈ keys) :
    Lawful t (do delete key f; revokeStreams keys; finish key : Program Unit) :=
  runs_bind (runs_delete key f) fun _ => runs_bind (runs_revokeStreams hk) fun _ => runs_finish key

theorem lawful_program {validScopes : List String → Bool} (task : Task) :
    Lawful t (program validScopes task) := by
  cases task with
  | stream auth persistentID sessionID =>
    exact lawful_handleSessionStream auth persistentID sessionID
  | events auth => exact lawful_handleBrowserEvents auth
  | logout tokenHash =>
    refine runs_bind lawful_read fun session => ?_
    cases session with
    | none => exact lawful_pure _
    | some p => exact lawful_removal mem_cons_self
  | deleteAPIKey id => exact lawful_removal mem_cons_self
  | deleteUser id =>
    refine runs_bind (lawful_aside fun _ => ⟨rfl, rfl, rfl, fun _ h => h, rfl⟩) fun _ => ?_
    refine runs_bind (runs_delete _ _) fun _ => ?_
    have hdeleted : Keeps fun s => streamActorKey id ∈ s.deleted :=
      fun s s' _ hE hs => hE.deleted hs
    refine runs_bind (lawful_keeps lawful_read hdeleted) fun created => ?_
    exact runs_bind (runs_revokeStreams mem_cons_self) fun _ => runs_finish _

end

section

variable (validScopes : List String → Bool)

theorem inv_start (db : Db) (tickets : Rows String StreamTicket) (now : ℕ) :
    Inv (Shared.start db tickets now) :=
  ⟨⟨nofun, nofun, nofun⟩, nofun⟩

theorem system_sound : Sound (system validScopes) Allowed Inv Evolves fun _ => Evolves where
  kept _ _ _ hinv hE := hE.inv hinv
  moved _ _ hinv hE := hE.inv hinv
  program t task s hinv :=
    ensures_imp (fun _ _ _ => trivial) (lawful_program task s ⟨hinv, trivial⟩)
  release _ _ hinv := hinv.evolves_refl
  move e s hinv := by
    cases e <;> exact hinv.evolves_same rfl rfl rfl (fun _ h => h) fun _ h => .inl h

/-- Nothing is open under the credential: no connection of a stream, unless its request is on its
way out and about to close it, and no event socket. -/
def Shared.NothingOpen (s : Shared) (k : PrincipalKey) : Prop :=
  (∀ o ∈ s.owners, k ∈ o.principals → o.stage = .serving ∨ o.stage = .done →
    ∀ c ∈ o.conn, c ∈ s.closedConns) ∧
  ∀ c ∈ s.clients, k ∈ c.principals → c.registered = false ∧ c.conn ∈ s.closedConns
  deriving Decidable

instance (n : Call) (s : Shared) : Decidable (Allowed n s) :=
  match n with
  | .plain => .isTrue trivial
  | .register principals => inferInstanceAs (Decidable (∀ k ∈ principals, k ∉ s.deleted))

theorem Inv.nothingOpen (hinv : Inv s) (hk : k ∈ s.finished) : s.NothingOpen k := by
  obtain ⟨-, hleft, hjoined⟩ := hinv.finished k hk
  refine ⟨fun o ho hmem hstage c hc => ?_, fun c hc hmem => ?_⟩
  · obtain ⟨i, hi⟩ := mem_iff_getElem?.1 ho
    rcases hstage with hserving | hdone
    · exact ((hleft i o hi hmem).resolve_left not_mem_nil).2 hserving c hc
    · exact hinv.tidy.done i o hi hdone c hc
  · obtain ⟨j, hj⟩ := mem_iff_getElem?.1 hc
    have hregistered : c.registered = false := by
      by_contra hr
      exact not_mem_nil (hjoined j c hj hmem (by simpa using hr))
    exact ⟨hregistered, hinv.tidy.unregistered j c hj hregistered⟩

def hub (db : Db) (tickets : Rows String StreamTicket) (now : ℕ) : State Call Shared Unit :=
  ⟨Shared.start db tickets now, []⟩

/-- Requests and removals in any order: if no request registers a stream or a socket after one
of its credentials was deleted, then nothing is open under a credential whose removal is over. -/
theorem nothing_open_after_removal (db : Db) (tickets : Rows String StreamTicket) (now : ℕ)
    (ops : List (Op Task Env))
    (hops : StepsMeet (step (system validScopes)) (Permitted Allowed)
      (hub db tickets now) ops) :
    ∀ k ∈ (run (step (system validScopes)) (hub db tickets now) ops).shared.finished,
      (run (step (system validScopes)) (hub db tickets now) ops).shared.NothingOpen k :=
  fun _ hk => (invariant_run (system_sound validScopes) (ready_start (inv_start db tickets now))
    hops).inv.nothingOpen hk

end

def signedIn : Db where
  users := Rows.empty.write "usr-1" (some ⟨"ada", .operator, .local, "", none, none, []⟩)
  sessions := Rows.empty.write 1 (some ⟨"usr-1", "cookie", 100⟩)
  keys := .empty

def checkedRequests : List (Op Task Env) :=
  [.env (.records ["term-1"]), .start (.stream (.credential (.cookie "cookie")) none "term-1"),
    .start (.events (.cookie "cookie")), .advance 0, .advance 0, .advance 1]

/-- The requests register and take over their connections. -/
def registration : List (Op Task Env) :=
  replicate 6 (.advance 0) ++ replicate 2 (.advance 1)

def logout : List (Op Task Env) := .start (.logout "cookie") :: replicate 9 (.advance 2)

theorem nothing_open_after_late_logout :
    (StepsMeet (step (system fun _ => true)) (Permitted Allowed) (hub signedIn .empty 0)
      (checkedRequests ++ registration ++ logout)) ∧
    ∀ k ∈ (run (step (system fun _ => true)) (hub signedIn .empty 0)
        (checkedRequests ++ registration ++ logout)).shared.finished,
      (run (step (system fun _ => true)) (hub signedIn .empty 0)
        (checkedRequests ++ registration ++ logout)).shared.NothingOpen k := by
  have hmeet : StepsMeet (step (system fun _ => true)) (Permitted Allowed)
      (hub signedIn .empty 0) (checkedRequests ++ registration ++ logout) := by decide +kernel
  exact ⟨hmeet, nothing_open_after_removal _ _ _ _ _ hmeet⟩

/-- Between the check and the registration the user signs out: the terminal and the event socket
open under a session that is gone. -/
theorem stream_opens_across_logout :
    PrincipalKey.session 1 ∈ (run (step (system fun _ => true)) (hub signedIn .empty 0)
        (checkedRequests ++ logout ++ registration)).shared.finished ∧
      ¬ (run (step (system fun _ => true)) (hub signedIn .empty 0)
        (checkedRequests ++ logout ++ registration)).shared.NothingOpen (.session 1) := by
  decide +kernel

end LabTether.StreamGate
