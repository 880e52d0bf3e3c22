import LabTether.StreamTickets
import LabTether.Transition

/-!
The ticket store over time (`request_auth_middleware.go`, `browser_events.go`). Tickets are
issued, dropped and redeemed while users, sessions and keys change in any way; the dropping of
tickets by a handler is an operation of its own, as it comes after the handler's change of the
store. A redemption, with its check, is one operation. The names of tickets are 32 random bytes
and do not repeat. The log of redemptions is not part of the hub: it records which requests a
ticket admitted, and the store they met.
-/
namespace LabTether.SignIn

open GoStrings Transition List Option Rows

section

variable {S : Secrets}

/-- A request that a ticket admitted to `sessionID`. -/
structure Redemption (S : Secrets) where
  name : String
  ticket : StreamTicket
  sessionID : String
  time : ℕ
  store : Store S

structure Desk (S : Secrets) where
  store : Store S
  now : ℕ
  tickets : Rows String StreamTicket
  issued : List String
  redeemed : List (Redemption S)

def Desk.start (store : Store S) (now : ℕ) : Desk S := ⟨store, now, .empty, [], []⟩

def streamTicketTTL : ℕ := 60

def issueStreamTicket (d : Desk S) (principal : Principal) (sessionID name : String) : Desk S :=
  let sessionID := trimSpace sessionID
  let actorID := trimSpace principal.actorID
  if sessionID = "" ∨ actorID = "" then d
  else
    { d with
      issued := name :: d.issued
      tickets := (purgeExpired d.now d.tickets).write name (some
        { sessionID, actorID, role := principal.role, allowedAssets := principal.allowedAssets
          apiKeyID := principal.apiKeyID, authSessionID := principal.authSessionID
          expiresAt := d.now + streamTicketTTL }) }

/-- A key that is restricted to assets gets no ticket for the browser events. -/
def handleEventTicket (d : Desk S) (principal : Principal) (name : String) : Desk S :=
  if principal.apiKeyID.isSome ∧ principal.allowedAssets ≠ [] then d
  else issueStreamTicket d principal browserEvents name

/-- The check of a ticket that was taken out of the store, and the request it admits. -/
def checkTaken (d : Desk S) (name : String) (ticket : StreamTicket) (sessionID : String) : Desk S :=
  if streamTicketPrincipalActive d.store.db d.now ticket then
    { d with redeemed := d.redeemed ++ [⟨name, ticket, sessionID, d.now, d.store⟩] }
  else d

def consumeStreamTicketAuth (d : Desk S) (sessionID name : String) : Desk S :=
  match takeStreamTicket d.now (trimSpace sessionID) (trimSpace name) d.tickets with
  | (none, tickets) => { d with tickets }
  | (some ticket, tickets) =>
    checkTaken { d with tickets } (trimSpace name) ticket (trimSpace sessionID)

def consumeEventTicketPrincipals (d : Desk S) (name : String) : Desk S :=
  match takeEventTicket d.now (trimSpace name) d.tickets with
  | (none, tickets) => { d with tickets }
  | (some ticket, tickets) => checkTaken { d with tickets } (trimSpace name) ticket browserEvents

inductive DeskOp (S : Secrets)
  /-- Users, sessions, keys or roles change. -/
  | change (store : Store S)
  | drop (keys : List PrincipalKey)
  | tick (d : ℕ)
  | issue (credential : Credential) (sessionID name : String)
  | issueEvents (credential : Credential) (name : String)
  | redeem (sessionID name : String)
  | redeemEvents (name : String)

variable (validScopes : List String → Bool)

/-- What an admitted request does; one that the middleware rejects does nothing. -/
def whenAdmitted (d : Desk S) (credential : Credential) (name : String)
    (handler : Principal → Desk S) : Desk S :=
  if name ∈ d.issued then d
  else (authenticate validScopes d.store.db d.now credential).elim d handler

def Desk.step (d : Desk S) : DeskOp S → Desk S
  | .change store => { d with store }
  | .drop ks => { d with tickets := dropStreamTickets ks d.tickets }
  | .tick t => { d with now := d.now + t }
  | .issue credential sessionID name => whenAdmitted validScopes d credential name
      fun principal => issueStreamTicket d principal sessionID name
  | .issueEvents credential name => whenAdmitted validScopes d credential name
      fun principal => handleEventTicket d principal name
  | .redeem sessionID name => consumeStreamTicketAuth d sessionID name
  | .redeemEvents name => consumeEventTicketPrincipals d name

end

section

variable {S : Secrets} {validScopes : List String → Bool} {d : Desk S}

inductive Move (d d' : Desk S) : Prop
  | keep (tickets : Within d'.tickets d.tickets) (issued : d'.issued = d.issued)
      (redeemed : d'.redeemed = d.redeemed)
  | issue (name : String) (ticket : StreamTicket) (fresh : name ∉ d.issued)
      (marked : ticket.Marked) (issued : d'.issued = name :: d.issued)
      (tickets : ∀ name' ticket', d'.tickets.get name' = some ticket' →
        d.tickets.get name' = some ticket' ∨ (name' = name ∧ ticket' = ticket))
      (redeemed : d'.redeemed = d.redeemed)
  | redeem (name : String) (ticket : StreamTicket) (held : d.tickets.get name = some ticket)
      (unexpired : ticket.expired d.now = false)
      (active : streamTicketPrincipalActive d.store.db d.now ticket = true)
      (tickets : Within d'.tickets d.tickets) (spent : d'.tickets.get name = none)
      (issued : d'.issued = d.issued)
      (redeemed : d'.redeemed = d.redeemed ++ [⟨name, ticket, ticket.sessionID, d.now, d.store⟩])

variable {credential : Credential} {principal : Principal} {ticket : StreamTicket}

theorem marked_of_authenticate
    (h : authenticate validScopes d.store.db d.now credential = some principal)
    (hactor : ticket.actorID = trimSpace principal.actorID)
    (hkey : ticket.apiKeyID = principal.apiKeyID)
    (hsession : ticket.authSessionID = principal.authSessionID) : ticket.Marked := by
  unfold StreamTicket.Marked
  rw [hactor, hkey, hsession, trimSpace_trimSpace]
  cases credential with
  | ownerToken =>
    simp only [authenticate, some.injEq] at h
    subst h
    exact iff_of_true (by decide +kernel) ⟨rfl, rfl⟩
  | cookie tokenHash =>
    simp only [authenticate, authenticatedSessionRequest, bind_eq_some_iff,
      map_eq_some_iff] at h
    obtain ⟨⟨i, r⟩, hvalid, user, -, rfl⟩ := h
    simp only [validateSession, bind_eq_some_iff, map_eq_some_iff] at hvalid
    obtain ⟨j, -, r', hr, hpair⟩ := hvalid
    obtain ⟨rfl, rfl⟩ := Prod.mk.inj hpair
    exact iff_of_false (d.store.notOwner j r' hr) (by simp)
  | apiKey secretHash =>
    simp only [authenticate, bind_eq_some_iff, map_eq_some_iff] at h
    obtain ⟨⟨id, key⟩, -, role, -, rfl⟩ := h
    refine iff_of_false ?_ (by simp)
    intro howner
    have hk : 'k' ∈ (trimSpace (apiKeyActor id)).toList :=
      mem_trimSpace_of_not_isSpace (by simp [apiKeyActor]) (by decide)
    rw [howner] at hk
    exact absurd hk (by decide)

theorem move_issueStreamTicket {sessionID name : String} (hfresh : name ∉ d.issued)
    (h : authenticate validScopes d.store.db d.now credential = some principal) :
    Move d (issueStreamTicket d principal sessionID name) := by
  unfold issueStreamTicket
  dsimp only
  split_ifs
  · exact .keep (fun _ _ h => h) rfl rfl
  refine .issue name ⟨trimSpace sessionID, trimSpace principal.actorID, principal.role,
    principal.allowedAssets, principal.apiKeyID, principal.authSessionID,
    d.now + streamTicketTTL⟩ hfresh (marked_of_authenticate h rfl rfl rfl) rfl ?_ rfl
  intro name' ticket' hget
  exact (write_cases hget).imp_left fun hold => within_deleteAll _ _ _ _ hold

theorem move_whenAdmitted {name : String} {handler : Principal → Desk S}
    (h : ∀ principal, name ∉ d.issued →
      authenticate validScopes d.store.db d.now credential = some principal →
      Move d (handler principal)) : Move d (whenAdmitted validScopes d credential name handler) := by
  unfold whenAdmitted
  split_ifs with hissued
  · exact .keep (fun _ _ h => h) rfl rfl
  · cases hauth : authenticate validScopes d.store.db d.now credential with
    | none => exact .keep (fun _ _ h => h) rfl rfl
    | some principal => exact h principal hissued hauth

theorem move_checkTaken {name sessionID : String} {tickets : Rows String StreamTicket}
    (htaken : Taken d.now d.tickets name sessionID (some ticket, tickets)) :
    Move d (checkTaken { d with tickets } name ticket sessionID) := by
  obtain ⟨hheld, hunexpired, hsession, hspent⟩ := htaken.ticket ticket rfl
  unfold checkTaken
  split_ifs with hactive
  · rw [← hsession]
    exact .redeem name ticket hheld hunexpired hactive htaken.within hspent rfl rfl
  · exact .keep htaken.within rfl rfl

theorem move_consumeStreamTicketAuth (sessionID name : String) :
    Move d (consumeStreamTicketAuth d sessionID name) := by
  have htaken := taken_takeStreamTicket d.now (trimSpace sessionID) (trimSpace name) d.tickets
  unfold consumeStreamTicketAuth
  split
  · rename_i tickets heq
    rw [heq] at htaken
    exact .keep htaken.within rfl rfl
  · rename_i ticket tickets heq
    rw [heq] at htaken
    exact move_checkTaken htaken

theorem move_consumeEventTicketPrincipals (name : String) :
    Move d (consumeEventTicketPrincipals d name) := by
  have htaken := taken_takeEventTicket d.now (trimSpace name) d.tickets
  unfold consumeEventTicketPrincipals
  split
  · rename_i tickets heq
    rw [heq] at htaken
    exact .keep htaken.within rfl rfl
  · rename_i ticket tickets heq
    rw [heq] at htaken
    exact move_checkTaken htaken

theorem move_step (d : Desk S) (op : DeskOp S) : Move d (d.step validScopes op) := by
  cases op with
  | change store | tick t => exact .keep (fun _ _ h => h) rfl rfl
  | drop keys => exact .keep (within_deleteAll _ _) rfl rfl
  | issue credential sessionID name =>
    exact move_whenAdmitted fun principal hfresh hauth => move_issueStreamTicket hfresh hauth
  | issueEvents credential name =>
    refine move_whenAdmitted fun principal hfresh hauth => ?_
    unfold handleEventTicket
    split_ifs
    · exact .keep (fun _ _ h => h) rfl rfl
    · exact move_issueStreamTicket hfresh hauth
  | redeem sessionID name => exact move_consumeStreamTicketAuth sessionID name
  | redeemEvents name => exact move_consumeEventTicketPrincipals name

end

section

variable {S : Secrets} (validScopes : List String → Bool)

/-- No ticket outlived the authority behind it. -/
structure Desk.Sound (d : Desk S) : Prop where
  once : (d.redeemed.map Redemption.name).Nodup
  named : ∀ e ∈ d.redeemed, e.sessionID = e.ticket.sessionID
  unexpired : ∀ e ∈ d.redeemed, e.time ≤ e.ticket.expiresAt
  backed : ∀ e ∈ d.redeemed, e.ticket.Backed validScopes e.store.db e.time S

/-- What every run keeps: tickets are under names that were issued, and a redeemed one is gone. -/
structure Desk.Inv (d : Desk S) : Prop where
  marked : ∀ name ticket, d.tickets.get name = some ticket → ticket.Marked
  held : ∀ name ticket, d.tickets.get name = some ticket → name ∈ d.issued
  spent : ∀ e ∈ d.redeemed, e.name ∈ d.issued ∧ d.tickets.get e.name = none
  once : (d.redeemed.map Redemption.name).Nodup
  checked : ∀ e ∈ d.redeemed, e.ticket.Marked ∧ e.sessionID = e.ticket.sessionID ∧
    e.ticket.expired e.time = false ∧
    streamTicketPrincipalActive e.store.db e.time e.ticket = true

variable {validScopes}

theorem inv_start (store : Store S) (now : ℕ) : (Desk.start store now).Inv where
  marked _ _ h := nomatch h
  held _ _ h := nomatch h
  spent _ h := nomatch h
  once := nodup_nil
  checked _ h := nomatch h

theorem Desk.Inv.move {d d' : Desk S} (hinv : d.Inv) (hmove : Move d d') : d'.Inv := by
  cases hmove with
  | keep tickets issued redeemed =>
    refine ⟨fun n t h => hinv.marked n t (tickets n t h), ?_, ?_, ?_, ?_⟩
    · intro n t h
      rw [issued]
      exact hinv.held n t (tickets n t h)
    · intro e he
      rw [redeemed] at he
      rw [issued]
      exact ⟨(hinv.spent e he).1, tickets.get_none (hinv.spent e he).2⟩
    · rw [redeemed]
      exact hinv.once
    · rw [redeemed]
      exact hinv.checked
  | issue name ticket fresh marked issued tickets redeemed =>
    refine ⟨?_, ?_, ?_, ?_, ?_⟩
    · intro n t h
      rcases tickets n t h with hold | ⟨-, rfl⟩
      · exact hinv.marked n t hold
      · exact marked
    · intro n t h
      rw [issued]
      rcases tickets n t h with hold | ⟨rfl, -⟩
      · exact .tail _ (hinv.held n t hold)
      · exact .head _
    · intro e he
      rw [redeemed] at he
      obtain ⟨hissued, hnone⟩ := hinv.spent e he
      rw [issued]
      refine ⟨.tail _ hissued, ?_⟩
      rcases hget : d'.tickets.get e.name with _ | t
      · rfl
      -- The new ticket is under a fresh name, and the name of a redeemed one is not.
      rcases tickets _ t hget with hold | ⟨heq, -⟩
      · rw [hnone] at hold
        cases hold
      · exact absurd (heq ▸ hissued) fresh
    · rw [redeemed]
      exact hinv.once
    · rw [redeemed]
      exact hinv.checked
  | redeem name ticket held unexpired active tickets spent issued redeemed =>
    refine ⟨fun n t h => hinv.marked n t (tickets n t h), ?_, ?_, ?_, ?_⟩
    · intro n t h
      rw [issued]
      exact hinv.held n t (tickets n t h)
    · intro e he
      rw [redeemed, mem_append, mem_singleton] at he
      rw [issued]
      rcases he with he | rfl
      · exact ⟨(hinv.spent e he).1, tickets.get_none (hinv.spent e he).2⟩
      · exact ⟨hinv.held name ticket held, spent⟩
    · rw [redeemed, map_append, nodup_append]
      refine ⟨hinv.once, by simp, ?_⟩
      rintro n hn n' hn' rfl
      obtain ⟨e, he, rfl⟩ := mem_map.1 hn
      rw [map_singleton, mem_singleton] at hn'
      have hgone := (hinv.spent e he).2
      rw [hn', held] at hgone
      cases hgone
    · intro e he
      rw [redeemed, mem_append, mem_singleton] at he
      rcases he with he | rfl
      · exact hinv.checked e he
      · exact ⟨hinv.marked name ticket held, rfl, unexpired, active⟩

variable (validScopes) in
theorem inv_run (store : Store S) (now : ℕ) (ops : List (DeskOp S)) :
    (run (Desk.step validScopes) (Desk.start store now) ops).Inv :=
  run_invariant_all _ Desk.Inv (fun d op hinv => hinv.move (move_step d op)) (inv_start store now) ops

/-- Over every history of the store, tickets are redeemed once, for their session and before
they expire, and the authority behind each is intact exactly if the creator of an API key still
holds the role of the ticket whenever a ticket of the key is redeemed. -/
theorem redemptions_sound_iff_creators_hold (store : Store S) (now : ℕ) (ops : List (DeskOp S)) :
    (run (Desk.step validScopes) (Desk.start store now) ops).Sound validScopes ↔
      ∀ e ∈ (run (Desk.step validScopes) (Desk.start store now) ops).redeemed,
        e.ticket.CreatorHolds validScopes e.store.db := by
  have hinv := inv_run validScopes store now ops
  constructor
  · intro hsound e he
    obtain ⟨hmarked, -, -, hactive⟩ := hinv.checked e he
    exact (backed_iff_creatorHolds e.store hmarked hactive).1 (hsound.backed e he)
  intro hholds
  refine ⟨hinv.once, fun e he => (hinv.checked e he).2.1, ?_, ?_⟩
  · intro e he
    have hunexpired := (hinv.checked e he).2.2.1
    simp only [StreamTicket.expired, decide_eq_false_iff_not] at hunexpired
    omega
  · intro e he
    obtain ⟨hmarked, -, -, hactive⟩ := hinv.checked e he
    exact (backed_iff_creatorHolds e.store hmarked hactive).2 (hholds e he)

end

/-- Secrets whose hashes are told apart by length, and keys whose hash is their id. -/
def plainSecrets : Secrets where
  token i := String.ofList (List.replicate i 'x')
  secret id := id
  token_injective i j h := by simpa using congrArg String.length h
  secret_injective _ _ h := h

def creatorDb : Db where
  users := empty.write "usr-1" (some ⟨"ada", .admin, .local, "", none, none, []⟩)
  sessions := .empty
  keys := empty.write "key-1" (some ⟨"key-1", .admin, ["terminal:write"], [], none, "usr-1"⟩)

theorem creatorDb_key {id : String} {key : APIKey} (h : creatorDb.keys.get id = some key) :
    key.secretHash = id := by
  rcases write_cases h with hempty | ⟨rfl, rfl⟩
  · cases hempty
  · rfl

def creatorStore : Store plainSecrets where
  db := creatorDb
  tokens _ _ h := nomatch h
  secrets _ _ h := creatorDb_key h
  notOwner _ _ h := nomatch h

def orphanedStore : Store plainSecrets where
  db := deleteUser creatorDb "usr-1"
  tokens _ _ h := nomatch h
  secrets _ _ h := creatorDb_key h
  notOwner _ _ h := nomatch h

/-- The key gets a ticket, its creator is deleted, and the ticket still opens a terminal with the
role of an administrator, which the middleware grants the key no more. -/
theorem ticket_outlives_deleted_creator :
    ¬ (run (Desk.step fun _ => true) (Desk.start creatorStore 0)
      [.issue (.apiKey "key-1") "term-1" "ticket-1", .change orphanedStore,
        .redeem "term-1" "ticket-1"]).Sound fun _ => true := by
  intro hsound
  have hrejected : ((run (Desk.step fun _ => true) (Desk.start creatorStore 0)
      [.issue (.apiKey "key-1") "term-1" "ticket-1", .change orphanedStore,
        .redeem "term-1" "ticket-1"]).redeemed.any fun e => (authenticate (fun _ => true)
          e.store.db e.time (e.ticket.credential plainSecrets)).isNone) = true := by
    decide +kernel
  obtain ⟨e, he, hnone⟩ := any_eq_true.1 hrejected
  obtain ⟨principal, hadmitted, -⟩ := hsound.backed e he
  simp [hadmitted] at hnone

end LabTether.SignIn
