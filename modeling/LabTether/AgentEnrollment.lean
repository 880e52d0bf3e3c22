import LabTether.AssetAnchor
import LabTether.Pool
import LabTether.Rows

/-!
Enrollment tokens, agent tokens and agent identities in Postgres
(`postgres_agent_enrollment_transactions.go`, `postgres_agent_approval.go`,
`postgres_agent_identity_state.go`, `postgres_enrollment.go`). Every operation is a process;
each statement is one call and sees what was committed before it. Statements wait for the
advisory locks and for the rows of the two token tables that another transaction has locked; the
rows of an asset are behind its identity lock. Row images are written at the commit. A statement
that only writes rows the transaction has locked, with values that it has read before, has no
call of its own. Tokens are looked up by the hash of a secret that only they have: here by their
id. Times are the database clock's, in microseconds; `clock_timestamp()` is read by each
statement. `LOWER`, the parse of a time and what a look for a group finds are inputs.
-/
namespace LabTether.AgentEnrollment

open GoStrings Pool Pool.Process AssetAnchor

inductive TokenStatus
  | pending
  | active
  | revoked
deriving DecidableEq

inductive EnrolledVia
  | consoleApproval
  | token (id : ℕ)
deriving DecidableEq

structure AgentToken where
  assetID : String
  status : TokenStatus
  enrolledVia : EnrolledVia
  expiresAt : ℕ
  lastUsedAt : Option ℕ
  createdAt : ℕ
  revokedAt : Option ℕ

open AgentToken

inductive Scope
  | asset
  | group
  | unplaced
  | unrestricted
  | legacyRevoked
deriving DecidableEq

structure EnrollmentToken where
  (id expiresAt maxUses useCount createdAt : ℕ)
  revokedAt : Option ℕ
  scope : Scope
  (assetID allowedGroupID : String)
deriving DecidableEq

structure Asset where
  row : AssetRow
  createdAt : ℕ

/-- `identities` is `agent_identity_state`, `retired` is `retired_agent_identities`. -/
structure Db where
  assets : Rows String Asset
  tokens : Rows ℕ AgentToken
  enrollments : Rows ℕ EnrollmentToken
  (identities retired : Rows String ℕ)

def Db.empty : Db := ⟨.empty, .empty, .empty, .empty, .empty⟩

def AgentToken.reserves (now : ℕ) (r : AgentToken) : Bool :=
  r.status == .pending && r.revokedAt.isNone && decide (now < r.expiresAt)

/-- `SET status = 'revoked', revoked_at = COALESCE(revoked_at, clock_timestamp())`. -/
def AgentToken.revoke (now : ℕ) (r : AgentToken) : AgentToken :=
  { r with status := .revoked, revokedAt := some (r.revokedAt.getD now) }

/-- The assets with an identity or an unexpired prepared approval. -/
def Db.enrolledOrReserved (db : Db) (now : ℕ) : Finset String :=
  ((db.identities.select fun _ _ => true) ++
    (db.tokens.select fun _ r => r.reserves now).filterMap fun i =>
      (db.tokens.get i).map assetID).toFinset

inductive Lock
  | identity (assetID : String)
  | issuance
  | capacity
deriving DecidableEq

inductive RowKey
  | token (id : ℕ)
  | enrollment (id : ℕ)
deriving DecidableEq

/-- What was committed, for the history of tokens and identities. -/
inductive Event
  | enrolled (assetID : String) (token : EnrollmentToken) (rotatedAt : ℕ)
  | approved (assetID : String) (prepared : ℕ) (rotatedAt : ℕ)
  | decommissioned (assetID : String) (retiredAt : ℕ)
  | heartbeat (token : ℕ)
deriving DecidableEq

/-- The committed tables with the clock, the locks and the next token id. -/
structure Store where
  db : Db
  clock : ℕ
  advisory : Lock → Option ℕ
  rows : RowKey → Option ℕ
  nextID : ℕ
  log : List Event

def Store.empty : Store := ⟨.empty, 0, fun _ => none, fun _ => none, 0, []⟩

/-- The statements, as far as a schedule has to tell them apart. -/
inductive Statement
  | lock (l : Lock)
  | select
  | update
  | commit
  | commitApproval (prepared : ℕ)
  | rollback

inductive Failure
  | assetIDRequired
  | expiryNotInFuture
  | invalidTokenParams
  | enrollmentTokenInvalid
  | enrollmentTokenUsed
  | enrollmentTokenExpired
  | enrollmentTokenRevoked
  | recoveryRequiresSingleUseToken
  | agentIdentityContinuityConflict
  | agentIdentityRetired
  | agentIdentityProofV2Required
  | enrollmentTokenPredatesRotation
  | enrollmentTokenScopeMismatch
  | agentFleetCapacityReached
  | preparedAgentApprovalNotFound
  | agentApprovalAssetConflict
  | agentCredentialInactive
  | notFound
  | stopped

abbrev Tx (α : Type) := Process Statement Store α

abbrev Outcome := Except Failure Unit

variable (t : ℕ)

/-- The end of a transaction: its locks are released. -/
def finish (s : Store) : Store :=
  { s with
    advisory := fun l => if s.advisory l = some t then none else s.advisory l
    rows := fun k => if s.rows k = some t then none else s.rows k }

def lock (l : Lock) : Tx Unit :=
  await (.lock l) fun s =>
    if s.advisory l = none ∨ s.advisory l = some t
    then some ((), { s with advisory := Function.update s.advisory l (some t) })
    else none

/-- No other transaction has the row. -/
def Store.free (s : Store) (t : ℕ) (k : RowKey) : Bool :=
  decide (s.rows k = none) || decide (s.rows k = some t)

def Store.take (s : Store) (t : ℕ) (ks : List RowKey) : Store :=
  { s with rows := fun k => if k ∈ ks then some t else s.rows k }

def select {α : Type} (f : Store → α) : Tx α := read .select f

/-- `SELECT ... FOR UPDATE` of at most one row. -/
def selectForUpdate {α : Type} (t : ℕ) (key : α → RowKey) (f : Store → Option α) : Tx (Option α) :=
  await .select fun s =>
    match f s with
    | none => some (none, s)
    | some a => if s.free t (key a) then some (some a, s.take t [key a]) else none

def commit (write : Db → Db) (events : List Event) (name : Statement) : Tx Outcome :=
  await name (fun s => some ((), finish t { s with db := write s.db, log := s.log ++ events })) >>=
    fun _ => pure (.ok ())

def rollback (failure : Failure) : Tx Outcome :=
  await .rollback (fun s => some ((), finish t s)) >>= fun _ => pure (.error failure)

variable (a : String)

/-- An `UPDATE` of agent tokens to revoked: the images of the rows it matches, which it locks. -/
def revokeTokens (statuses : List TokenStatus) :
    Tx (List (ℕ × Option AgentToken)) :=
  await .update fun s =>
    let ids := s.db.tokens.select fun _ r => decide (r.assetID = a ∧ r.status ∈ statuses)
    if ids.all fun i => s.free t (.token i) then
      some (ids.map fun i => (i, (s.db.tokens.get i).map (revoke s.clock)),
        s.take t (ids.map .token))
    else none

def insertAgentToken (status : TokenStatus) (via : EnrolledVia) (ttl : ℕ) :
    Tx (ℕ × AgentToken) :=
  atomically .update fun s =>
    ((s.nextID, ⟨a, status, via, s.clock + ttl, none, s.clock, none⟩),
      { s.take t [.token s.nextID] with nextID := s.nextID + 1 })

def hardTokenMaxUsesCeiling : ℕ := 4096

def defaultMaxEnrolledAgents : ℕ := 1024

def hardMaxEnrolledAgents : ℕ := 65536

/-- `BoundedLimit(value, DefaultMaxEnrolledAgents, HardMaxEnrolledAgents)`. -/
def fleetLimit (value : Int) : ℕ :=
  if value ≤ 0 then defaultMaxEnrolledAgents
  else if value > hardMaxEnrolledAgents then hardMaxEnrolledAgents
  else value.toNat

def EnrollmentToken.valid (now : ℕ) (r : EnrollmentToken) : Bool :=
  r.revokedAt.isNone && decide (now < r.expiresAt) &&
    decide (1 ≤ r.maxUses ∧ r.maxUses ≤ hardTokenMaxUsesCeiling) && decide (r.useCount < r.maxUses)

def classifyUnusableEnrollmentToken (token : Option EnrollmentToken) (now : ℕ) : Failure :=
  match token with
  | none => .enrollmentTokenInvalid
  | some r =>
    if r.revokedAt.isSome then .enrollmentTokenRevoked
    else if r.expiresAt ≤ now then .enrollmentTokenExpired
    else if 1 ≤ r.maxUses ∧ r.maxUses ≤ r.useCount then .enrollmentTokenUsed
    else .enrollmentTokenInvalid

variable (token : EnrollmentToken)

def readmitsRetiredIdentity (retiredAt : ℕ) : Bool :=
  decide (token.maxUses = 1 ∧ retiredAt < token.createdAt)

structure CommitRequest where
  (assetID hostname groupID : String)
  (enrollmentToken agentTokenTTL : ℕ)
  (deviceFingerprint deviceKeyAlgorithm deviceProofVersion : String)
  /-- The hub's time of the request, and how it writes it. -/
  hubNow : ℕ
  hubNowText : String
  /-- What the look for the group finds. -/
  groupFound : Bool

def initialEnrollmentGroupForToken (a requestedGroupID : String) :
    Except Failure String :=
  let requested := trimSpace requestedGroupID
  let allowed := trimSpace token.allowedGroupID
  match token.scope with
  | .asset =>
    if trimSpace token.assetID ≠ a then .error .enrollmentTokenScopeMismatch
    else if requested ≠ "" ∧ requested ≠ allowed then .error .enrollmentTokenScopeMismatch
    else .ok allowed
  | .group =>
    if requested ≠ "" ∧ requested ≠ allowed then .error .enrollmentTokenScopeMismatch
    else .ok allowed
  | .unplaced => if requested ≠ "" then .error .enrollmentTokenScopeMismatch else .ok ""
  | .unrestricted => .ok requested
  | .legacyRevoked => .error .enrollmentTokenScopeMismatch

def validateEnrollmentRecoveryScope (a existingGroupID : String) : Bool :=
  let existing := trimSpace existingGroupID
  match token.scope with
  | .asset => decide (trimSpace token.assetID = a)
  | .group => decide (trimSpace token.allowedGroupID = existing)
  | .unplaced => decide (existing = "")
  | .unrestricted => true
  | .legacyRevoked => false

variable (req : CommitRequest)

def validateInitialIdentityFields : Bool :=
  let fingerprint := trimSpace req.deviceFingerprint
  let algorithm := trimSpace req.deviceKeyAlgorithm
  let version := trimSpace req.deviceProofVersion
  if fingerprint = "" ∧ algorithm = "" ∧ version = "" then true
  else fingerprint ≠ "" && algorithm ≠ "" && (version = "v1" || version = "v2")

variable (parses : String → Bool)

/-- `parses` says which texts are times in the format of the verified-at marker. -/
def validateVerifiedAgentRecoveryAnchor (metadata : Metadata) (fingerprint keyAlgorithm : String) :
    Bool :=
  let stored := trimSpace ((metadata keyAgentDeviceFingerprint).getD "")
  let storedAlgorithm := trimSpace ((metadata keyAgentDeviceKeyAlgorithm).getD "")
  let verifiedAt := trimSpace ((metadata keyAgentIdentityVerifiedAt).getD "")
  stored ≠ "" && storedAlgorithm ≠ "" && stored = trimSpace fingerprint &&
    storedAlgorithm = trimSpace keyAlgorithm && parses verifiedAt

def anchorMetadata (fingerprint algorithm verifiedAt : String) : Metadata := fun key =>
  if key = keyAgentDeviceFingerprint then some fingerprint
  else if key = keyAgentDeviceKeyAlgorithm then some algorithm
  else if key = keyAgentIdentityVerifiedAt then some verifiedAt
  else none

def buildInitialEnrolledAsset (groupID : String) : Asset :=
  ⟨⟨req.hostname, "agent", nullIfBlank groupID,
    if trimSpace req.deviceFingerprint = "" then fun _ => none
    else anchorMetadata (trimSpace req.deviceFingerprint) (trimSpace req.deviceKeyAlgorithm)
      req.hubNowText⟩, req.hubNow⟩

/-- The check of `ensureAgentFleetCapacity` after its lock: is there room? -/
def fleetHasRoom (limit : ℕ) (s : Store) : Bool :=
  decide ((s.db.enrolledOrReserved s.clock).card < limit)

/-- The marker, or the one that the backfill would insert. -/
def selectAgentIdentityMarker (asset : Asset) (s : Store) : ℕ :=
  (s.db.identities.get a).getD
    (((s.db.tokens.select fun _ r => decide (r.assetID = a)).filterMap fun i =>
      (s.db.tokens.get i).map createdAt).foldl max asset.createdAt)

def enrollmentWrites (etok : EnrollmentToken) (retired : Bool) (asset : Option Asset)
    (revoked : List (ℕ × Option AgentToken)) (token : ℕ × AgentToken) (rotatedAt : ℕ) (db : Db) :
    Db where
  assets := match asset with
    | some row => db.assets.write a (some row)
    | none => db.assets
  tokens := (db.tokens.writeAll revoked).write token.1 (some token.2)
  enrollments := db.enrollments.write etok.id (some { etok with useCount := etok.useCount + 1 })
  identities := db.identities.write a (some rotatedAt)
  retired := if retired then db.retired.write a none else db.retired

/-- The statements that recovery and initial enrollment share. -/
def issueAgentToken (etok : EnrollmentToken) (retired : Bool) (asset : Option Asset) :
    Tx Outcome := do
  let revoked ← revokeTokens t a [.active]
  let token ← insertAgentToken t a .active (.token etok.id) req.agentTokenTTL
  let rotatedAt ← select Store.clock
  commit t (enrollmentWrites a etok retired asset revoked token rotatedAt)
    [.enrolled a etok rotatedAt] .commit

def recoverAgent (t : ℕ) (a : String) (req : CommitRequest) (etok : EnrollmentToken)
    (existing : Asset) : Tx Outcome :=
  if validateEnrollmentRecoveryScope etok a (existing.row.groupID.getD "") = false then
    rollback t .enrollmentTokenScopeMismatch
  else if trimSpace req.deviceProofVersion ≠ "v2" then rollback t .agentIdentityProofV2Required
  else if etok.maxUses ≠ 1 then rollback t .recoveryRequiresSingleUseToken
  else if validateVerifiedAgentRecoveryAnchor parses existing.row.metadata req.deviceFingerprint
      req.deviceKeyAlgorithm = false then rollback t .agentIdentityContinuityConflict
  else do
    let marker ← select (selectAgentIdentityMarker a existing)
    if etok.createdAt ≤ marker then rollback t .enrollmentTokenPredatesRotation
    else issueAgentToken t a req etok false none

def enrollAgent (limit : ℕ) (t : ℕ) (a : String) (req : CommitRequest) (etok : EnrollmentToken)
    (retired : Bool) : Tx Outcome :=
  match initialEnrollmentGroupForToken etok a req.groupID with
  | .error failure => rollback t failure
  | .ok groupID =>
    if validateInitialIdentityFields req = false then
      rollback t .agentIdentityContinuityConflict
    else do
      lock t .capacity
      let room ← select (fleetHasRoom limit)
      if room = false then rollback t .agentFleetCapacityReached
      else if trimSpace groupID ≠ "" ∧ req.groupFound = false then
        rollback t .enrollmentTokenScopeMismatch
      else
        issueAgentToken t a req etok retired
          (some (buildInitialEnrolledAsset req (trimSpace groupID)))

def commitAgentEnrollment (limit : ℕ) (t : ℕ) (req : CommitRequest) :
    Tx Outcome :=
  let a := trimSpace req.assetID
  if a = "" then pure (.error .assetIDRequired)
  else if req.agentTokenTTL = 0 then pure (.error .expiryNotInFuture)
  else do
    lock t (.identity a)
    lock t .issuance
    let existing ← select fun s => s.db.assets.get a
    let etok ← selectForUpdate t (fun r : EnrollmentToken => .enrollment r.id) fun s =>
      (s.db.enrollments.get req.enrollmentToken).filter (EnrollmentToken.valid s.clock)
    match etok with
    | none => do
      let failure ← select fun s =>
        classifyUnusableEnrollmentToken (s.db.enrollments.get req.enrollmentToken) s.clock
      rollback t failure
    | some etok => do
      let retiredAt ← select fun s => s.db.retired.get a
      match retiredAt, existing with
      | some _, some _ => rollback t .agentIdentityRetired
      | some r, none =>
        if readmitsRetiredIdentity etok r = false then rollback t .agentIdentityRetired
        else enrollAgent limit t a req etok true
      | none, some asset => recoverAgent parses t a req etok asset
      | none, none => enrollAgent limit t a req etok false

def maxPreparedAgentApprovalTTL : ℕ := 300000000

/-- `boundedPreparedApprovalExpiry`, as a time from now on. -/
def boundedPreparedApprovalTTL (requested : ℕ) : ℕ :=
  if requested = 0 ∨ maxPreparedAgentApprovalTTL < requested then maxPreparedAgentApprovalTTL
  else requested

structure FinalizeRequest where
  preparedTokenID : ℕ
  (assetID hostname deviceFingerprint deviceKeyAlgorithm : String)
  (agentTokenTTL hubNow : ℕ)
  hubNowText : String

def prepareAgentApproval (limit : ℕ) (t : ℕ) (assetID : String) (ttl : ℕ) : Tx Outcome :=
  let a := trimSpace assetID
  if a = "" then pure (.error .assetIDRequired)
  else do
    lock t (.identity a)
    let retired ← select fun s => (s.db.retired.get a).isSome
    if retired then rollback t .agentIdentityRetired
    else do
      let asset ← select fun s => (s.db.assets.get a).isSome
      if asset then rollback t .agentApprovalAssetConflict
      else do
        let duplicate ← selectForUpdate t (fun i : ℕ => .token i) fun s =>
          (s.db.tokens.select fun _ r => r.assetID == a && r.reserves s.clock).head?
        if duplicate.isSome then rollback t .agentApprovalAssetConflict
        else do
          lock t .capacity
          let room ← select (fleetHasRoom limit)
          if room = false then rollback t .agentFleetCapacityReached
          else do
            let token ← insertAgentToken t a .pending .consoleApproval
              (boundedPreparedApprovalTTL ttl)
            commit t (fun db => { db with tokens := db.tokens.write token.1 (some token.2) }) []
              .commit

def approvalWrites (asset : Asset) (revoked : List (ℕ × Option AgentToken)) (prepared : ℕ)
    (token : AgentToken) (rotatedAt : ℕ) (db : Db) : Db :=
  { db with
    assets := db.assets.write a (some asset)
    tokens := (db.tokens.writeAll revoked).write prepared (some token)
    identities := db.identities.write a (some rotatedAt) }

/-- The prepared token of an asset, as long as it can be finalized. -/
def Store.prepared (s : Store) (id : ℕ) (a : String) : Option AgentToken :=
  (s.db.tokens.get id).filter fun r => r.assetID == a && r.reserves s.clock

def finalizeAgentApproval (req : FinalizeRequest) : Tx Outcome :=
  let a := trimSpace req.assetID
  let fingerprint := trimSpace req.deviceFingerprint
  let algorithm := trimSpace req.deviceKeyAlgorithm
  if a = "" ∨ fingerprint = "" ∨ algorithm = "" then
    pure (.error .agentIdentityContinuityConflict)
  else if req.agentTokenTTL = 0 then pure (.error .expiryNotInFuture)
  else do
    lock t (.identity a)
    lock t .issuance
    let prepared ← selectForUpdate t (fun p : ℕ × AgentToken => .token p.1) fun s =>
      (s.prepared req.preparedTokenID a).map fun r => (req.preparedTokenID, r)
    match prepared with
    | none => rollback t .preparedAgentApprovalNotFound
    | some (p, _) => do
      let retired ← select fun s => (s.db.retired.get a).isSome
      if retired then rollback t .agentIdentityRetired
      else do
        let exists' ← select fun s => (s.db.assets.get a).isSome
        if exists' then rollback t .agentApprovalAssetConflict
        else do
          let revoked ← revokeTokens t a [.active]
          let activated ← select fun s => (s.prepared p a).map fun r =>
            { r with status := .active, expiresAt := s.clock + req.agentTokenTTL }
          match activated with
          | none => rollback t .preparedAgentApprovalNotFound
          | some token => do
            let rotatedAt ← select Store.clock
            commit t (approvalWrites a ⟨⟨trimSpace req.hostname, "agent", none,
                  anchorMetadata fingerprint algorithm req.hubNowText⟩, req.hubNow⟩
                revoked p token rotatedAt)
              [.approved a p rotatedAt] (.commitApproval p)

/-- A statement on its own that revokes one agent token, if `p` holds of its row. -/
def revokeOne (id : ℕ) (p : AgentToken → Bool) : Tx Bool :=
  await .update fun s =>
    match (s.db.tokens.get id).filter p with
    | none => some (false, s)
    | some r =>
      if s.free t (.token id) then
        let tokens := s.db.tokens.write id (some (r.revoke s.clock))
        some (true, { s with db := { s.db with tokens := tokens } })
      else none

def cancelAgentApproval (id : ℕ) : Tx Outcome := do
  let _ ← revokeOne t id fun r => r.status == .pending
  return .ok ()

def revokeAgentToken (id : ℕ) : Tx Outcome := do
  let found ← revokeOne t id fun _ => true
  return if found then .ok () else .error .notFound

section

variable (lower : String → String)

/-- The tombstone that a removal writes, if the asset is an agent's. -/
def retirement (a : String) (s : Store) : Option ℕ :=
  match s.db.assets.get a with
  | none => none
  | some asset =>
    let used := s.db.tokens.select fun _ r =>
      decide (r.assetID = a) && (r.status == .active || r.lastUsedAt.isSome ||
        decide (r.enrolledVia ≠ .consoleApproval))
    if lower (btrim asset.row.source) = "agent" ∨ (s.db.identities.get a).isSome ∨ used ≠ [] then
      some (match s.db.retired.get a with
        | some r => min r s.clock
        | none => s.clock)
    else none

def decommissionWrites (a : String) (retiredAt : Option ℕ)
    (revoked : List (ℕ × Option AgentToken)) (db : Db) : Db where
  assets := db.assets.write a none
  tokens := db.tokens.writeAll revoked
  enrollments := db.enrollments
  identities := db.identities.write a none
  retired := match retiredAt with
    | some r => db.retired.write a (some r)
    | none => db.retired

def decommissionAgentAsset (t : ℕ) (assetID : String) : Tx Outcome :=
  let a := trimSpace assetID
  if a = "" then pure (.error .notFound)
  else do
    lock t (.identity a)
    let retiredAt ← select (retirement lower a)
    let revoked ← revokeTokens t a [.active, .pending]
    let found ← select fun s => (s.db.assets.get a).isSome
    if found = false then rollback t .notFound
    else
      commit t (decommissionWrites a retiredAt revoked)
        ((retiredAt.map (Event.decommissioned a)).toList) .commit

structure TokenParams where
  (tokenHashGiven createdByGiven : Bool)
  (ttl maxUses : ℕ)
  scope : Scope
  (assetID allowedGroupID : String)
  groupFound : Bool

def validateEnrollmentTokenCreateParams (params : TokenParams) : Bool :=
  let a := trimSpace params.assetID
  let g := trimSpace params.allowedGroupID
  params.tokenHashGiven && params.createdByGiven &&
    decide (1 ≤ params.maxUses ∧ params.maxUses ≤ hardTokenMaxUsesCeiling) &&
    match params.scope with
    | .asset => a ≠ "" && params.maxUses == 1
    | .group => a = "" && g ≠ ""
    | .unplaced => a = "" && g = ""
    | .unrestricted => a = "" && g = ""
    | .legacyRevoked => false

def createEnrollmentToken (t : ℕ) (params : TokenParams) : Tx Outcome :=
  if validateEnrollmentTokenCreateParams params = false then
    pure (.error .invalidTokenParams)
  else if params.ttl = 0 then pure (.error .expiryNotInFuture)
  else do
    lock t .issuance
    if trimSpace params.allowedGroupID ≠ "" ∧ params.groupFound = false then
      rollback t .enrollmentTokenScopeMismatch
    else do
      let token ← atomically .update fun s =>
        ((⟨s.nextID, s.clock + params.ttl, params.maxUses, 0, s.clock, none, params.scope,
            trimSpace params.assetID, trimSpace params.allowedGroupID⟩ : EnrollmentToken),
          { s.take t [.enrollment s.nextID] with nextID := s.nextID + 1 })
      commit t (fun db => { db with enrollments := db.enrollments.write token.id (some token) })
        [] .commit

def revokeEnrollmentToken (t id : ℕ) : Tx Outcome := do
  let found ← await .update fun s =>
    match s.db.enrollments.get id with
    | none => some (false, s)
    | some r =>
      if s.free t (.enrollment id) then
        let enrollments := s.db.enrollments.write id
          (some { r with revokedAt := some (r.revokedAt.getD s.clock) })
        some (true, { s with db := { s.db with enrollments := enrollments } })
      else none
  return if found then .ok () else .error .notFound

/-- A `DELETE` of the rows of a table that meet `p`: it locks them. -/
def deleteRows {ν : Type} (t : ℕ) (key : ℕ → RowKey) (table : Db → Rows ℕ ν)
    (p : ℕ → ν → Bool) : Tx (List ℕ) :=
  await .update fun s =>
    let ids := (table s.db).select fun _ r => p s.clock r
    if ids.all fun i => s.free t (key i) then some (ids, s.take t (ids.map key)) else none

def EnrollmentToken.dead (now : ℕ) (r : EnrollmentToken) : Bool :=
  r.revokedAt.isSome || decide (r.expiresAt ≤ now) || decide (r.maxUses < 1) ||
    decide (hardTokenMaxUsesCeiling < r.maxUses) || decide (r.maxUses ≤ r.useCount)

def AgentToken.dead (now : ℕ) (r : AgentToken) : Bool :=
  (r.status == .revoked && r.lastUsedAt.isNone) ||
    (r.status == .pending && decide (r.expiresAt ≤ now))

def deleteDeadTokens (t : ℕ) : Tx Outcome := do
  let enrollments ← deleteRows t .enrollment Db.enrollments EnrollmentToken.dead
  let tokens ← deleteRows t .token Db.tokens dead
  commit t (fun db => { db with
    enrollments := db.enrollments.deleteAll enrollments
    tokens := db.tokens.deleteAll tokens }) [] .commit

/-- The image of a token after an authenticated heartbeat: a sliding expiry. -/
def AgentToken.renew (now ttl : ℕ) (r : AgentToken) : AgentToken :=
  { r with lastUsedAt := some now, expiresAt := max r.expiresAt (now + ttl) }

def commitAuthenticatedAgentHeartbeat (t id ttl : ℕ) (assetID : String) (body : Heartbeat) :
    Tx Outcome :=
  let a := trimSpace assetID
  if a = "" then pure (.error .agentCredentialInactive)
  else do
    lock t (.identity a)
    let token ← selectForUpdate t (fun _ : AgentToken => .token id) fun s =>
      (s.db.tokens.get id).filter fun r =>
        r.status == .active && r.revokedAt.isNone && decide (s.clock < r.expiresAt)
    match token with
    | none => rollback t .agentCredentialInactive
    | some r =>
      if r.assetID ≠ a then rollback t .agentCredentialInactive
      else do
        let asset ← select fun s => s.db.assets.get a
        match asset with
        | none => rollback t .agentCredentialInactive
        | some asset => do
          let now ← select Store.clock
          let row := upsertAssetHeartbeatTx lower (some asset.row)
            { body.request with
              allowAgentIdentityTOFU := true
              source := "agent"
              groupID := asset.row.groupID.getD "" }
          commit t (fun db => { db with
              assets := db.assets.write a (some { asset with row := row })
              tokens := db.tokens.write id (some (r.renew now ttl)) })
            [.heartbeat id] .commit

end

inductive Call
  | createEnrollmentToken (params : TokenParams)
  | revokeEnrollmentToken (id : ℕ)
  | commitAgentEnrollment (req : CommitRequest)
  | prepareAgentApproval (assetID : String) (ttl : ℕ)
  | finalizeAgentApproval (req : FinalizeRequest)
  | cancelAgentApproval (id : ℕ)
  | revokeAgentToken (id : ℕ)
  | decommissionAgentAsset (assetID : String)
  | deleteDeadTokens
  | commitAuthenticatedAgentHeartbeat (id ttl : ℕ) (assetID : String) (body : Heartbeat)

/-- What the hub is configured with and what Postgres and Go do with texts. -/
structure Setting where
  lower : String → String
  parses : String → Bool
  maxEnrolledAgents : Int

def Setting.limit (c : Setting) : ℕ := fleetLimit c.maxEnrolledAgents

def program (c : Setting) (t : ℕ) : Call → Tx Outcome
  | .createEnrollmentToken params => createEnrollmentToken t params
  | .revokeEnrollmentToken id => revokeEnrollmentToken t id
  | .commitAgentEnrollment req => commitAgentEnrollment c.parses c.limit t req
  | .prepareAgentApproval assetID ttl => prepareAgentApproval c.limit t assetID ttl
  | .finalizeAgentApproval req => finalizeAgentApproval t req
  | .cancelAgentApproval id => cancelAgentApproval t id
  | .revokeAgentToken id => revokeAgentToken t id
  | .decommissionAgentAsset assetID => decommissionAgentAsset c.lower t assetID
  | .deleteDeadTokens => deleteDeadTokens t
  | .commitAuthenticatedAgentHeartbeat id ttl assetID body =>
    commitAuthenticatedAgentHeartbeat c.lower t id ttl assetID body

/-- The environment lets time pass. -/
def system (c : Setting) : System Statement Store Outcome Call ℕ where
  program := program c
  release := finish
  move := fun d s => { s with clock := s.clock + d }
  answer := .error .stopped

end LabTether.AgentEnrollment
