import LabTether.Rows
import LabTether.Pool

/-!
The push relay (`services/push-relay/src/index.js`, `registrations.js`). Each read, write and
delete of the key-value store is one call of a request, and so are the request to Apple and the
answer; the write that refreshes a registration comes after the answer of its push, at any time.
The hash of an id is any function; a new registration has a random id, whose hash no request has
named before. What Apple answers is an input of the push. Stored records have the shape that the
relay writes. Which records were deleted, for which ids a request has answered 204 or 410, and
which pushes went to Apple, with the number of such answers when they started, are recorded
beside the store.
-/
namespace LabTether.PushRelay

open Pool Pool.Process Transition List State

section

inductive Kind
  | alert
  | liveactivity
deriving DecidableEq

inductive Environment
  | production
  | sandbox

inductive PushType
  | alert
  | background
  | liveactivity

structure Registration where
  token : String
  kind : Kind
  environment : Environment
  (createdAt refreshedAt : ℕ)

structure Entry where
  record : Registration
  expiresAt : ℕ

structure Relay where
  kv : Rows String Entry
  now : ℕ
  (named deleted gone : List String)
  sends : List (String × ℕ)

/-- The delayed write of a refresh is told apart from the other calls. -/
inductive Call
  | plain
  | refresh (key : String)

abbrev Program := Process Call Relay

def daySeconds : ℕ := 86400
def liveactivityTTLSeconds : ℕ := daySeconds
def alertTTLSeconds : ℕ := 400 * daySeconds
def alertRefreshAfterSeconds : ℕ := 30 * daySeconds

def ttlFor : Kind → ℕ
  | .liveactivity => liveactivityTTLSeconds
  | .alert => alertTTLSeconds

def isRegistrationId (id : String) : Bool :=
  id.toList.length == 43 && id.toList.all fun c => c.isAlphanum || c == '_' || c == '-'

def isCompatiblePushType : Kind → PushType → Bool
  | .alert, .alert => true
  | .alert, .background => true
  | .liveactivity, .liveactivity => true
  | _, _ => false

def Relay.writeRecord (s : Relay) (key : String) (record : Registration) : Relay :=
  { s with kv := s.kv.write key (some ⟨record, s.now + ttlFor record.kind⟩) }

def Relay.name (s : Relay) (key : String) : Relay := { s with named := key :: s.named }

variable (key : String → String)

/-- `createRegistration`, with the random id that it draws. -/
def register (id token : String) (kind : Kind) (environment : Environment) : Program Unit :=
  atomically .plain fun s => ((),
    if key id ∈ s.named then s
    else (s.name (key id)).writeRecord (key id) ⟨token, kind, environment, s.now, s.now⟩)

def loadRegistration (k : String) : Program (Option Registration) :=
  read .plain fun s => ((s.kv.get k).filter fun e => decide (s.now < e.expiresAt)).map Entry.record

def deleteRegistration (k : String) : Program Unit :=
  atomically .plain fun s => ((), { s with kv := s.kv.write k none, deleted := k :: s.deleted })

def answerGone (id : String) : Program Unit :=
  atomically .plain fun s => ((), { s with gone := s.gone ++ [id] })

/-- The start of a request that names an id; how many answers 204 and 410 there were. -/
def beginRequest (k : String) : Program ℕ :=
  atomically .plain fun s => (s.gone.length, s.name k)

def unregister (id : String) : Program Unit :=
  if isRegistrationId id then do
    let _ ← beginRequest (key id)
    deleteRegistration (key id)
    answerGone id
  else pure ()

inductive Outcome
  | sent
  | unregistered
  | rejected
  | misconfigured
  | unreachable
deriving DecidableEq

/-- `sendPush`; a relay without its signing key does not get to Apple. Returns the time. -/
def sendPush (id : String) (started : ℕ) (outcome : Outcome) : Program ℕ :=
  atomically .plain fun s => (s.now,
    if outcome = .misconfigured then s else { s with sends := (id, started) :: s.sends })

def refreshIfStale (k : String) (record : Registration) (now : ℕ) : Program Unit :=
  if record.kind ≠ .alert then pure ()
  else if now - record.refreshedAt < alertRefreshAfterSeconds then pure ()
  else atomically (.refresh k) fun s => ((), s.writeRecord k { record with refreshedAt := now })

def push (id : String) (pushType : PushType) (outcome : Outcome) : Program Unit :=
  if isRegistrationId id then do
    let started ← beginRequest (key id)
    match ← loadRegistration (key id) with
    | none => pure ()
    | some record =>
      if isCompatiblePushType record.kind pushType then do
        let now ← sendPush id started outcome
        match outcome with
        | .sent => refreshIfStale (key id) record now
        | .unregistered => do
          deleteRegistration (key id)
          answerGone id
        | _ => pure ()
      else pure ()
  else pure ()

inductive Request
  | register (id token : String) (kind : Kind) (environment : Environment)
  | unregister (id : String)
  | push (id : String) (pushType : PushType) (outcome : Outcome)

def program : Request → Program Unit
  | .register id token kind environment => register key id token kind environment
  | .unregister id => unregister key id
  | .push id pushType outcome => push key id pushType outcome

def system : System Call Relay Unit Request ℕ where
  program _ := program key
  release _ s := s
  move d s := { s with now := s.now + d }
  answer := ()

def relay (kv : Rows String Entry) (now : ℕ) : State Call Relay Unit :=
  ⟨⟨kv, now, kv.keys, [], [], []⟩, []⟩

end

section

variable {key : String → String} {s s' : Relay} {k id : String} {n : ℕ}

/-- No delayed write comes after the deletion of its record. -/
def Allowed : Call → Relay → Prop
  | .plain, _ => True
  | .refresh k, s => k ∉ s.deleted

/-- A push that went to Apple had started before any answer that its id is gone. -/
def Relay.Silent (s : Relay) : Prop := ∀ p ∈ s.sends, p.1 ∉ s.gone.take p.2
  deriving Decidable

structure Inv (key : String → String) (s : Relay) : Prop where
  gone : ∀ id ∈ s.gone, key id ∈ s.deleted
  deleted : ∀ k ∈ s.deleted, s.kv.get k = none ∧ k ∈ s.named
  started : ∀ p ∈ s.sends, p.2 ≤ s.gone.length
  silent : s.Silent

structure Evolves (key : String → String) (s s' : Relay) : Prop where
  inv : Inv key s'
  named : s.named ⊆ s'.named
  deleted : s.deleted ⊆ s'.deleted
  gone : s.gone <+: s'.gone

/-- What the requests may assert: nothing takes it back. -/
def Keeps (key : String → String) (P : Relay → Prop) : Prop :=
  ∀ s s', Evolves key s s' → P s → P s'

abbrev Runs {α : Type} (key : String → String) (t : ℕ) (P : Relay → Prop) (p : Program α)
    (Q : α → Relay → Prop) : Prop :=
  Triple Allowed (Rely (Inv key) (Evolves key) (fun _ => Evolves key) t) (Evolves key)
    (fun s => Inv key s ∧ P s) p fun a s => Inv key s ∧ Q a s

variable {α : Type} {t : ℕ} {P : Relay → Prop} {Q : α → Relay → Prop}

theorem Keeps.stable (hP : Keeps key P) :
    Stable (Rely (Inv key) (Evolves key) (fun _ => Evolves key) t) fun s => Inv key s ∧ P s := by
  intro s s' ⟨_, hinv', hmove⟩ ⟨_, hs⟩
  rcases hmove with hE | ⟨_, _, hE⟩
  all_goals exact ⟨hinv', hP s s' hE hs⟩

theorem keeps_true : Keeps key fun _ => True := fun _ _ _ _ => trivial

theorem runs_pure {a : α} : Runs key t P (pure a) fun _ _ => True :=
  triple_pure keeps_true.stable fun _ hs => ⟨hs.1, trivial⟩

theorem runs_atomically {c : Call} {f : Relay → α × Relay} (hP : Keeps key P)
    (hQ : ∀ a, Keeps key (Q a))
    (hf : ∀ s, Inv key s → P s → Allowed c s → Evolves key s (f s).2 ∧ Q (f s).1 (f s).2) :
    Runs key t P (atomically c f) Q := by
  refine triple_atomically hP.stable (fun a => (hQ a).stable) fun s hs hA => ?_
  obtain ⟨hE, hq⟩ := hf s hs.1 hs.2 hA
  exact ⟨hE, hE.inv, hq⟩

theorem Inv.evolves_refl (h : Inv key s) : Evolves key s s :=
  ⟨h, Subset.refl _, Subset.refl _, prefix_rfl⟩

/-- The request started after so many answers. -/
def Started (n : ℕ) (s : Relay) : Prop := n ≤ s.gone.length

variable (id : String)

def Before (n : ℕ) (s : Relay) : Prop := n ≤ s.gone.length ∧ id ∉ s.gone.take n

theorem keeps_started (n : ℕ) : Keeps key (Started n) :=
  fun _ _ hE hs => Nat.le_trans hs hE.gone.length_le

theorem keeps_before (n : ℕ) : Keeps key (Before id n) := by
  intro s s' hE ⟨hn, hs⟩
  refine ⟨Nat.le_trans hn hE.gone.length_le, ?_⟩
  obtain ⟨new, hnew⟩ := hE.gone
  rw [← hnew, take_append_of_le_length hn]
  exact hs

theorem keeps_deleted (k : String) : Keeps key fun s => k ∈ s.deleted :=
  fun _ _ hE hs => hE.deleted hs

theorem Inv.name (h : Inv key s) (k : String) : Inv key (s.name k) :=
  { h with deleted := fun k' hk' => ⟨(h.deleted k' hk').1, .tail _ (h.deleted k' hk').2⟩ }

theorem Inv.writeRecord (h : Inv key s) (hk : k ∉ s.deleted) (record : Registration) :
    Inv key (s.writeRecord k record) := by
  refine { h with deleted := fun k' hk' => ⟨?_, (h.deleted k' hk').2⟩ }
  have hne : k' ≠ k := fun heq => hk (heq ▸ hk')
  exact (Rows.get_write_of_ne _ _ hne).trans (h.deleted k' hk').1

theorem runs_register (token : String) (kind : Kind) (environment : Environment) :
    Runs key t (fun _ => True) (register key id token kind environment) fun _ _ => True := by
  refine runs_atomically keeps_true (fun _ => keeps_true) fun s hinv _ _ => ?_
  split_ifs with hnamed
  · exact ⟨hinv.evolves_refl, trivial⟩
  · have hfresh : key id ∉ (s.name (key id)).deleted := fun h => hnamed (hinv.deleted _ h).2
    exact ⟨⟨(hinv.name _).writeRecord hfresh _, subset_cons_self _ _, Subset.refl _,
      prefix_rfl⟩, trivial⟩

theorem runs_beginRequest (k : String) :
    Runs key t (fun _ => True) (beginRequest k) fun n s => Started n s ∧ k ∈ s.named := by
  refine runs_atomically keeps_true (fun n => ?_) fun s hinv _ _ => ?_
  · exact fun s s' hE hs => ⟨keeps_started n s s' hE hs.1, hE.named hs.2⟩
  · exact ⟨⟨hinv.name k, subset_cons_self _ _, Subset.refl _, prefix_rfl⟩,
      Nat.le_refl _, .head _⟩

theorem runs_loadRegistration (n : ℕ) :
    Runs key t (fun s => Started n s ∧ key id ∈ s.named) (loadRegistration (key id))
      fun record s => key id ∈ s.named ∧ (record.isSome → Before id n s) := by
  have hnamed : Keeps key fun s => key id ∈ s.named := fun _ _ hE hs => hE.named hs
  refine runs_atomically (fun s s' hE hs => ⟨keeps_started n s s' hE hs.1, hnamed s s' hE hs.2⟩)
    (fun record s s' hE hs => ⟨hnamed s s' hE hs.1, fun h => keeps_before id n s s' hE (hs.2 h)⟩) ?_
  intro s hinv ⟨hstarted, hname⟩ _
  refine ⟨hinv.evolves_refl, hname, fun hsome => ⟨hstarted, fun hgone => ?_⟩⟩
  have hnone := (hinv.deleted _ (hinv.gone id (mem_of_mem_take hgone))).1
  dsimp only at hsome
  rw [hnone] at hsome
  cases hsome

theorem runs_sendPush (n : ℕ) (outcome : Outcome) :
    Runs key t (fun s => key id ∈ s.named ∧ Before id n s) (sendPush id n outcome)
      fun _ s => key id ∈ s.named := by
  have hnamed : Keeps key fun s => key id ∈ s.named := fun _ _ hE hs => hE.named hs
  refine runs_atomically (fun s s' hE hs => ⟨hnamed s s' hE hs.1, keeps_before id n s s' hE hs.2⟩)
    (fun _ => hnamed) ?_
  intro s hinv ⟨hname, hbefore⟩ _
  split_ifs
  · exact ⟨hinv.evolves_refl, hname⟩
  refine ⟨⟨⟨hinv.gone, hinv.deleted, ?_, ?_⟩, Subset.refl _, Subset.refl _,
    prefix_rfl⟩, hname⟩
  · exact forall_mem_cons.2 ⟨hbefore.1, hinv.started⟩
  · exact forall_mem_cons.2 ⟨hbefore.2, hinv.silent⟩

theorem runs_deleteRegistration (k : String) :
    Runs key t (fun s => k ∈ s.named) (deleteRegistration k) fun _ s => k ∈ s.deleted := by
  refine runs_atomically (fun _ _ hE hs => hE.named hs) (fun _ => keeps_deleted k) ?_
  intro s hinv hname _
  refine ⟨⟨⟨fun id hid => .tail _ (hinv.gone id hid), ?_, hinv.started, hinv.silent⟩,
    Subset.refl _, subset_cons_self _ _, prefix_rfl⟩, .head _⟩
  intro k' hk'
  rw [Rows.get_write]
  split_ifs with heq
  · exact ⟨rfl, heq ▸ hname⟩
  · exact hinv.deleted k' ((mem_cons.1 hk').resolve_left heq)

theorem runs_answerGone :
    Runs key t (fun s => key id ∈ s.deleted) (answerGone id) fun _ _ => True := by
  refine runs_atomically (keeps_deleted _) (fun _ => keeps_true) fun s hinv hdeleted _ => ?_
  have hgrows : s.gone <+: s.gone ++ [id] := prefix_append _ _
  refine ⟨⟨⟨?_, hinv.deleted, ?_, ?_⟩, Subset.refl _, Subset.refl _, hgrows⟩, trivial⟩
  · exact forall_mem_append.2 ⟨hinv.gone, forall_mem_singleton.2 hdeleted⟩
  · exact fun p hp => Nat.le_trans (hinv.started p hp) hgrows.length_le
  · intro p hp
    rw [take_append_of_le_length (hinv.started p hp)]
    exact hinv.silent p hp

theorem runs_refreshIfStale (k : String) (record : Registration) (now : ℕ) :
    Runs key t (fun s => k ∈ s.named) (refreshIfStale k record now) fun _ _ => True := by
  unfold refreshIfStale
  split_ifs
  · exact runs_pure
  · exact runs_pure
  refine runs_atomically (fun _ _ hE hs => hE.named hs) (fun _ => keeps_true) ?_
  intro s hinv _ hallowed
  exact ⟨⟨hinv.writeRecord hallowed _, Subset.refl _, Subset.refl _, prefix_rfl⟩, trivial⟩

theorem runs_unregister : Runs key t (fun _ => True) (unregister key id) fun _ _ => True := by
  unfold unregister
  split_ifs
  · refine triple_bind (runs_beginRequest (key id)) fun n => ?_
    have hdelete : Runs key t (fun s => Started n s ∧ key id ∈ s.named)
        (deleteRegistration (key id)) fun _ s => key id ∈ s.deleted :=
      fun s hs => runs_deleteRegistration (key id) s ⟨hs.1, hs.2.2⟩
    exact triple_bind hdelete fun _ => runs_answerGone id
  · exact runs_pure

theorem runs_push (pushType : PushType) (outcome : Outcome) :
    Runs key t (fun _ => True) (push key id pushType outcome) fun _ _ => True := by
  unfold push
  split_ifs
  · refine triple_bind (runs_beginRequest (key id)) fun n =>
      triple_bind (runs_loadRegistration id n) fun record => ?_
    rcases record with _ | record
    · exact runs_pure
    dsimp only
    split_ifs
    · have hsend : Runs key t (fun s => key id ∈ s.named ∧ ((some record).isSome → Before id n s))
          (sendPush id n outcome) fun _ s => key id ∈ s.named :=
        fun s hs => runs_sendPush id n outcome s ⟨hs.1, hs.2.1, hs.2.2 rfl⟩
      refine triple_bind hsend fun now => ?_
      cases outcome with
      | sent => exact runs_refreshIfStale (key id) record now
      | unregistered =>
        exact triple_bind (runs_deleteRegistration (key id)) fun _ => runs_answerGone id
      | rejected | misconfigured | unreachable => exact runs_pure
    · exact runs_pure
  · exact runs_pure

theorem system_sound (key : String → String) :
    Sound (system key) Allowed (Inv key) (Evolves key) fun _ => Evolves key where
  kept _ _ _ _ hE := hE.inv
  moved _ _ _ hE := hE.inv
  program t c s hinv := by
    refine ensures_imp (fun _ _ _ => trivial) (?_ : Ensures _ _ _ _ (fun _ s => Inv key s ∧ True) s)
    cases c with
    | register id token kind environment =>
      exact runs_register id token kind environment s ⟨hinv, trivial⟩
    | unregister id => exact runs_unregister id s ⟨hinv, trivial⟩
    | push id pushType outcome => exact runs_push id pushType outcome s ⟨hinv, trivial⟩
  release _ _ hinv := hinv.evolves_refl
  move d s hinv := ⟨{ hinv with }, Subset.refl _, Subset.refl _, prefix_rfl⟩

theorem inv_relay (key : String → String) (kv : Rows String Entry) (now : ℕ) :
    Inv key (relay kv now).shared := ⟨nofun, nofun, nofun, nofun⟩

/-- Registrations, pushes and unregistrations in any order, and delayed writes at any time: if no
delayed write comes after the deletion of its record, then no push that starts after an answer
204 or 410 for its id gets to Apple. -/
theorem unregistered_stays_silent (key : String → String) (kv : Rows String Entry) (now : ℕ)
    (ops : List (Op Request ℕ))
    (hops : StepsMeet (step (system key)) (Permitted Allowed) (relay kv now) ops) :
    (run (step (system key)) (relay kv now) ops).shared.Silent :=
  (invariant_run (system_sound key) (ready_start (inv_relay key kv now)) hops).inv.silent

end

instance (c : Call) (s : Relay) : Decidable (Allowed c s) :=
  match c with
  | .plain => .isTrue trivial
  | .refresh k => inferInstanceAs (Decidable (k ∉ s.deleted))

def deviceID : String := String.ofList (replicate 43 'A')

/-- A registration, and after two months a push that is answered before its delayed write. -/
def stalePush : List (Op Request ℕ) :=
  [.start (.register deviceID "aa" .alert .production), .advance 0, .env (60 * daySeconds),
    .start (.push deviceID .alert .sent), .advance 1, .advance 1, .advance 1]

def unregistration : List (Op Request ℕ) :=
  .start (.unregister deviceID) :: replicate 3 (.advance 2)

def laterPush : List (Op Request ℕ) :=
  .start (.push deviceID .alert .sent) :: replicate 3 (.advance 3)

/-- The delayed write comes first, then the registration is removed for good. -/
theorem unregistered_stays_silent_after_refresh : (run (step (system id)) (relay .empty 0)
        (stalePush ++ [.advance 1] ++ unregistration ++ laterPush)).shared.gone = [deviceID] ∧
      (run (step (system id)) (relay .empty 0)
        (stalePush ++ [.advance 1] ++ unregistration ++ laterPush)).shared.Silent :=
  ⟨by decide +kernel, unregistered_stays_silent _ _ _ _ (by decide +kernel)⟩

/-- The delayed write brings the deleted registration back. -/
theorem refresh_revives_registration : ¬ (run (step (system id)) (relay .empty 0)
      (stalePush ++ unregistration ++ [.advance 1] ++ laterPush)).shared.Silent := by
  decide +kernel

end LabTether.PushRelay
