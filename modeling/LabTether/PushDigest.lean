import LabTether.TableParts
import LabTether.Telemetry
import LabTether.Transition

/-!
The server-side digest of alert pushes (`internal/persistence/postgres_push_digest_*.go`). A
device has one state row, with the lease and the generation of its last claim, and the stored
events. Three transactions work on them: an enqueue, a claim of the devices that are due, and
the settlement of a claim by its holder. Each transaction is one step here; the rows that `SKIP
LOCKED` passes over are an argument of the step. Times are microseconds and every clock reading
is an argument. Event ids are numbers that the store never issues twice, and a map is the list
of its entries; the blank ids that a settlement refuses are no ids here.
-/
namespace LabTether.PushDigest

open GoStrings Table Telemetry

def maxPushDigestEventsPerDevice : ℕ := 128
def maxPushDigestGroupIDs : ℕ := 64
def maxPushDigestIdentityBytes : ℕ := 16 * 1024
def maxPushDigestLabels : ℕ := 64
def maxPushDigestEnqueueBatch : ℕ := 5000
def maxPushDigestClaimBatch : ℕ := 100
def maxPushDigestCleanupBatch : ℕ := 500

def seconds (n : ℤ) : ℤ := n * 1000000

def pushDigestEventTTL : ℤ := seconds (48 * 3600)

/-- `PushDigestEnqueue`; `none` is a nil label map. -/
structure PushDigestEnqueue where
  (deviceID channelID dedupeKey ruleID : String)
  labels : Option Labels
  severity : String
  (nodeOffline serviceDown : Bool)
  groupIDs : List String
  maintenanceScopeComplete : Bool
  (windowSeconds createdAt : ℤ)

structure PushDigestEnqueueResult where
  (inserted duplicates dropped : ℕ)
  droppedDeviceIDs : List String

structure PushDigestEvent where
  id : ℕ
  ruleID : String
  labels : Option Labels
  severity : String
  (nodeOffline serviceDown : Bool)
  groupIDs : List String
  maintenanceScopeComplete : Bool
  createdAt : ℤ
  retryCount : ℕ
  (dueAt expiresAt : ℤ)
deriving DecidableEq

/-- A row of `push_alert_digest_events`; generation 0 is held by no claim. -/
structure EventRow extends PushDigestEvent where
  (deviceID dedupeKey : String)
  deliveryGeneration : ℕ
deriving DecidableEq

/-- A row of `push_alert_digest_states`. -/
structure StateRow where
  (deviceID channelID : String)
  (windowSeconds dueAt expiresAt : ℤ)
  (retryCount deliveryGeneration : ℕ)
  leaseExpiresAt : Option ℤ
deriving DecidableEq

structure PushDigestClaim where
  deviceID : String
  leaseExpiresAt : ℤ
  channelID : String
  windowSeconds : ℤ
  (retryCount deliveryGeneration : ℕ)
  expiresAt : ℤ
  events : List PushDigestEvent
deriving DecidableEq

structure PushDigestSettlement where
  (sent deferred discarded : List ℕ)
  retryAt : List (ℕ × ℤ)
  deferredUntil : ℤ

structure Store where
  states : List StateRow
  events : List EventRow
  nextID : ℕ
deriving DecidableEq

def Store.empty : Store := ⟨[], [], 0⟩

def isLowerHex (value : String) : Bool :=
  value.toList.all (fun c => ('0' ≤ c && c ≤ '9') || ('a' ≤ c && c ≤ 'f')) && value != ""

def validPushDigestIdentity (ruleID : String) (labels : Option Labels) : Bool :=
  match labels with
  | none => false
  | some labels =>
    if trimSpace ruleID = "" ∨ 255 < ruleID.utf8ByteSize ∨ maxPushDigestLabels < labels.length then
      false
    else if labels.any fun e =>
        e.1.utf8ByteSize == 0 || 255 < e.1.utf8ByteSize || 4096 < e.2.utf8ByteSize then false
    else labels.json.utf8ByteSize ≤ maxPushDigestIdentityBytes

def normalizeGroupIDs (groupIDs : List String) : List String :=
  (((groupIDs.map trimSpace).filter fun g => g != "" && g.utf8ByteSize ≤ 255).dedup).insertionSort
    (· ≤ ·)

def normalizePushDigestEnqueue (now : ℤ) (event : PushDigestEnqueue) :
    Except String PushDigestEnqueue :=
  let deviceID := trimSpace event.deviceID
  let channelID := trimSpace event.channelID
  let dedupeKey := toLower (trimSpace event.dedupeKey)
  let severity := toLower (trimSpace event.severity)
  if validPushDigestIdentity event.ruleID event.labels = false then
    .error "push digest alert identity missing or oversized"
  else if deviceID = "" ∨ channelID = "" then
    .error "push digest device and channel are required"
  else if dedupeKey.utf8ByteSize ≠ 64 ∨ isLowerHex dedupeKey = false then
    .error "push digest dedupe key must be a 64-character lowercase hex digest"
  else if severity ≠ "info" ∧ severity ≠ "warning" then
    .error "push digest severity must be info or warning"
  else
    let groups := normalizeGroupIDs event.groupIDs
    let fits := decide (groups.length ≤ maxPushDigestGroupIDs)
    .ok { event with
      deviceID := deviceID
      channelID := channelID
      dedupeKey := dedupeKey
      severity := severity
      windowSeconds := min (max event.windowSeconds 30) 86400
      createdAt := if event.createdAt = zeroTime then now else event.createdAt
      groupIDs := if fits then groups else []
      maintenanceScopeComplete := fits && event.maintenanceScopeComplete }

/-- The order in which every hub takes the state locks. -/
def enqueueBefore (a b : PushDigestEnqueue) : Prop :=
  a.deviceID < b.deviceID ∨ (a.deviceID = b.deviceID ∧ a.dedupeKey ≤ b.dedupeKey)
  deriving Decidable

variable (e : PushDigestEnqueue)

def PushDigestEnqueue.dueAt : ℤ := e.createdAt + seconds e.windowSeconds
def PushDigestEnqueue.expiresAt (e : PushDigestEnqueue) : ℤ := e.createdAt + pushDigestEventTTL

/-- The checks and the order of a batch, before the transaction starts. -/
def prepareEnqueue (now : ℤ) (raw : List PushDigestEnqueue) :
    Except String (List PushDigestEnqueue) :=
  if maxPushDigestEnqueueBatch < raw.length then
    .error ("push digest enqueue batch exceeds " ++ toString maxPushDigestEnqueueBatch ++ " events")
  else do
    let events ← raw.mapM (normalizePushDigestEnqueue now)
    return events.insertionSort enqueueBefore

def newStateRow : StateRow where
  deviceID := e.deviceID
  channelID := e.channelID
  windowSeconds := e.windowSeconds
  dueAt := e.dueAt
  expiresAt := e.expiresAt
  retryCount := 0
  deliveryGeneration := 0
  leaseExpiresAt := none

/-- DO UPDATE leaves the lease and the generation. -/
def refreshState (r : StateRow) : StateRow :=
  { r with
    windowSeconds := e.windowSeconds
    dueAt := min r.dueAt e.dueAt
    expiresAt := max r.expiresAt e.expiresAt }

def upsertState (states : List StateRow) (e : PushDigestEnqueue) : List StateRow :=
  if e.deviceID ∈ states.map StateRow.deviceID then
    updateWhere (fun r => r.deviceID == e.deviceID) (refreshState e) states
  else states ++ [newStateRow e]

/-- Events of the batch's device that are past their time when the event is created. -/
def pruneExpired (events : List EventRow) (e : PushDigestEnqueue) : List EventRow :=
  deleteWhere (fun r => r.deviceID == e.deviceID && decide (r.expiresAt ≤ e.createdAt)) events

/-- The state of the loop that decides what to insert. -/
structure Intake where
  availableByDevice : String → Option ℤ
  queuedKeys : List (String × String)
  (duplicates dropped : ℕ)
  droppedDeviceIDs : List String
  toInsert : List PushDigestEnqueue

def Intake.start : Intake := ⟨fun _ => none, [], 0, 0, [], []⟩

/-- One round of the loop; the two statistics were read from the pruned table. -/
def admitEvent (stored : List EventRow) (st : Intake) (e : PushDigestEnqueue) : Intake :=
  let duplicate := stored.any fun r => r.deviceID == e.deviceID && r.dedupeKey == e.dedupeKey
  let count := (part EventRow.deviceID e.deviceID stored).length
  let available := (st.availableByDevice e.deviceID).getD (maxPushDigestEventsPerDevice - count)
  let st := { st with
    availableByDevice := Function.update st.availableByDevice e.deviceID (some available) }
  if duplicate then { st with duplicates := st.duplicates + 1 }
  else if (e.deviceID, e.dedupeKey) ∈ st.queuedKeys then
    { st with duplicates := st.duplicates + 1 }
  else if available ≤ 0 then
    { st with
      dropped := st.dropped + 1
      droppedDeviceIDs :=
        if e.deviceID ∈ st.droppedDeviceIDs then st.droppedDeviceIDs
        else st.droppedDeviceIDs ++ [e.deviceID] }
  else
    { st with
      queuedKeys := (e.deviceID, e.dedupeKey) :: st.queuedKeys
      availableByDevice := Function.update st.availableByDevice e.deviceID (some (available - 1))
      toInsert := st.toInsert ++ [e] }

def newEventRow (id : ℕ) (e : PushDigestEnqueue) : EventRow where
  id := id
  ruleID := e.ruleID
  labels := e.labels
  severity := e.severity
  nodeOffline := e.nodeOffline
  serviceDown := e.serviceDown
  groupIDs := e.groupIDs
  maintenanceScopeComplete := e.maintenanceScopeComplete
  createdAt := e.createdAt
  retryCount := 0
  dueAt := e.dueAt
  expiresAt := e.expiresAt
  deviceID := e.deviceID
  dedupeKey := e.dedupeKey
  deliveryGeneration := 0

structure Inserts where
  events : List EventRow
  (nextID inserted duplicates : ℕ)

def insertEvent (st : Inserts) (e : PushDigestEnqueue) : Inserts :=
  if st.events.any fun r => r.deviceID == e.deviceID && r.dedupeKey == e.dedupeKey then
    { st with nextID := st.nextID + 1, duplicates := st.duplicates + 1 }
  else
    { st with
      events := st.events ++ [newEventRow st.nextID e]
      nextID := st.nextID + 1
      inserted := st.inserted + 1 }

variable (s : Store)

def enqueueBatch (events : List PushDigestEnqueue) : PushDigestEnqueueResult × Store :=
  let states := events.foldl upsertState s.states
  let stored := events.foldl pruneExpired s.events
  let intake := events.foldl (admitEvent stored) Intake.start
  let ins := intake.toInsert.foldl insertEvent ⟨stored, s.nextID, 0, intake.duplicates⟩
  (⟨ins.inserted, ins.duplicates, intake.dropped, intake.droppedDeviceIDs⟩,
    ⟨states, ins.events, ins.nextID⟩)

def enqueuePushDigestEvents (now : ℤ) (raw : List PushDigestEnqueue) :
    Except String (PushDigestEnqueueResult × Store) :=
  if raw = [] then .ok (⟨0, 0, 0, []⟩, s)
  else do
    let events ← prepareEnqueue now raw
    return enqueueBatch s events

/-- A state row whose time is over, or whose device has no event left to deliver. -/
def isStale (now : ℤ) (r : StateRow) : Bool :=
  decide (r.expiresAt ≤ now) ||
    !s.events.any fun e => e.deviceID == r.deviceID && decide (now < e.expiresAt)

/-- The devices whose state the cleanup of a claim deletes. -/
def cleanupTargets (now : ℤ) (locked : String → Bool) : List String :=
  (((s.states.filter fun r => isStale s now r && !locked r.deviceID).map
    StateRow.deviceID).insertionSort (· ≤ ·)).take maxPushDigestCleanupBatch

def cleanupStates (targets : List String) : Store :=
  { s with
    states := deleteWhere (fun r => decide (r.deviceID ∈ targets)) s.states
    events := deleteWhere (fun e => decide (e.deviceID ∈ targets)) s.events }

def isClaimable (now : ℤ) (r : StateRow) : Bool :=
  decide (r.dueAt ≤ now) && decide (now < r.expiresAt) &&
    match r.leaseExpiresAt with
    | none => true
    | some lease => decide (lease ≤ now)

def stateDueBefore (a b : StateRow) : Prop :=
  a.dueAt < b.dueAt ∨ (a.dueAt = b.dueAt ∧ a.deviceID ≤ b.deviceID)
  deriving Decidable

def claimTargets (states : List StateRow) (now : ℤ) (limit : ℕ) (locked : String → Bool) :
    List String :=
  (((states.filter fun r => isClaimable now r && !locked r.deviceID).insertionSort
    stateDueBefore).take limit).map StateRow.deviceID

def leaseState (leaseExpiresAt : ℤ) (r : StateRow) : StateRow :=
  { r with
    deliveryGeneration := r.deliveryGeneration + 1
    leaseExpiresAt := some leaseExpiresAt }

def eventBefore (a b : PushDigestEvent) : Prop :=
  a.createdAt < b.createdAt ∨ (a.createdAt = b.createdAt ∧ a.id ≤ b.id)
  deriving Decidable

/-- The events of a device that its claim takes. -/
def dueIDs (events : List EventRow) (deviceID : String) (now : ℤ) : List ℕ :=
  (((events.filter fun e => e.deviceID == deviceID && decide (now < e.expiresAt) &&
    decide (e.dueAt ≤ now)).insertionSort
      fun a b => eventBefore a.toPushDigestEvent b.toPushDigestEvent).take
        maxPushDigestEventsPerDevice).map fun e => e.id

def holdRow (generation : ℕ) (e : EventRow) : EventRow := { e with deliveryGeneration := generation }

/-- UPDATE of the taken events with the generation of the claim. -/
def holdEvents (ids : List ℕ) (generation : ℕ) (events : List EventRow) : List EventRow :=
  updateWhere (fun e => decide (e.id ∈ ids)) (holdRow generation) events

/-- One round of the loop over the leased rows, with the claims so far. -/
def claimDevice (now leaseExpiresAt : ℤ) (acc : List EventRow × List PushDigestClaim)
    (r : StateRow) : List EventRow × List PushDigestClaim :=
  let ids := dueIDs acc.1 r.deviceID now
  let events := holdEvents ids r.deliveryGeneration acc.1
  let returned := (events.filter fun e => decide (e.id ∈ ids)).map EventRow.toPushDigestEvent
  (events, acc.2 ++ [{
    deviceID := r.deviceID
    leaseExpiresAt := leaseExpiresAt
    channelID := r.channelID
    windowSeconds := r.windowSeconds
    retryCount := r.retryCount
    deliveryGeneration := r.deliveryGeneration
    expiresAt := r.expiresAt
    events := returned.insertionSort eventBefore }])

/-- The arguments of a claim, and the rows that other transactions have locked when its two
statements look for state rows. -/
structure ClaimCall where
  (now leaseDuration limit : ℤ)
  (lockedAtCleanup lockedAtClaim : String → Bool)

variable (c : ClaimCall)

def ClaimCall.leaseExpiresAt : ℤ :=
  c.now + min (max c.leaseDuration (seconds 20)) (seconds 300)

def ClaimCall.boundedLimit : ℕ :=
  min (if c.limit ≤ 0 then 50 else c.limit.toNat) maxPushDigestClaimBatch

def ClaimCall.cleaned (s : Store) : Store :=
  cleanupStates s (cleanupTargets s c.now c.lockedAtCleanup)

def ClaimCall.targets (s : Store) : List String :=
  claimTargets (c.cleaned s).states c.now c.boundedLimit c.lockedAtClaim

def claimDuePushDigests : List PushDigestClaim × Store :=
  let s₁ := c.cleaned s
  let targets := c.targets s
  let states := updateWhere (fun r => decide (r.deviceID ∈ targets)) (leaseState c.leaseExpiresAt)
    s₁.states
  let claimed := states.filter fun r => decide (r.deviceID ∈ targets)
  let result := claimed.foldl (claimDevice c.now c.leaseExpiresAt) (s₁.events, [])
  (result.2, { s₁ with states := states, events := result.1 })

/-- `add`, inside `pushDigestPartition`. -/
def addSettlementID (ids : List ℕ) (id : ℕ) : Except String (List ℕ) :=
  if id ∈ ids then .error "overlapping push digest settlement sets"
  else if maxPushDigestEventsPerDevice < (ids ++ [id]).length then
    .error "push digest settlement exceeds bound"
  else .ok (ids ++ [id])

def addRetryID (now : ℤ) (ids : List ℕ) (entry : ℕ × ℤ) : Except String (List ℕ) := do
  let ids ← addSettlementID ids entry.1
  if entry.2 ≤ now then .error "push digest retry must be future" else .ok ids

def pushDigestPartition (outcome : PushDigestSettlement) (now : ℤ) : Except String (List ℕ) := do
  let ids ← (outcome.sent ++ outcome.deferred ++ outcome.discarded).foldlM addSettlementID []
  if outcome.deferred ≠ [] ∧ outcome.deferredUntil ≤ now then
    .error "push digest deferral must be future"
  else outcome.retryAt.foldlM (addRetryID now) ids

variable (deviceID : String)

def isHeld (generation : ℕ) (e : EventRow) : Bool :=
  e.deviceID == deviceID && e.deliveryGeneration == generation

/-- The events that a claim of the device holds. -/
def heldIDs (generation : ℕ) : List ℕ :=
  (s.events.filter (isHeld deviceID generation)).map fun e => e.id

def retireEvents (generation : ℕ) (outcome : PushDigestSettlement) (events : List EventRow) :
    List EventRow :=
  deleteWhere (fun e => isHeld deviceID generation e &&
    decide (e.id ∈ outcome.sent ++ outcome.discarded)) events

def deferRow (deferredUntil : ℤ) (e : EventRow) : EventRow :=
  { e with
    dueAt := max e.dueAt deferredUntil
    deliveryGeneration := 0 }

def deferEvents (generation : ℕ) (outcome : PushDigestSettlement) (events : List EventRow) :
    List EventRow :=
  updateWhere (fun e => isHeld deviceID generation e && decide (e.id ∈ outcome.deferred))
    (deferRow outcome.deferredUntil) events

def retryRow (next : ℤ) (e : EventRow) : EventRow :=
  { e with
    dueAt := next
    retryCount := min (e.retryCount + 1) 8
    deliveryGeneration := 0 }

def retryEvent (generation : ℕ) (events : List EventRow) (entry : ℕ × ℤ) :
    List EventRow :=
  updateWhere (fun e => isHeld deviceID generation e && e.id == entry.1) (retryRow entry.2) events

def applyOutcome (generation : ℕ) (outcome : PushDigestSettlement) (events : List EventRow) :
    List EventRow :=
  outcome.retryAt.foldl (retryEvent deviceID generation)
    (deferEvents deviceID generation outcome (retireEvents deviceID generation outcome events))

def releaseRow (nextDue : ℤ) (retries : ℕ) (r : StateRow) : StateRow :=
  { r with
    dueAt := nextDue
    retryCount := retries
    leaseExpiresAt := none }

/-- The state row follows what is left of its device's events, or goes. -/
def releaseState (generation : ℕ) (events : List EventRow) (states : List StateRow) :
    List StateRow :=
  let left := part EventRow.deviceID deviceID events
  let claimed (r : StateRow) := r.deviceID == deviceID && r.deliveryGeneration == generation
  match (left.map fun e => e.dueAt).min? with
  | none => deleteWhere claimed states
  | some nextDue =>
    updateWhere claimed (releaseRow nextDue ((left.map fun e => e.retryCount).foldl max 0)) states

/-- The transaction of a settlement that has the claim's state row under lock. -/
def settleHeld (generation : ℕ) (outcome : PushDigestSettlement) (now : ℤ) :
    Store :=
  let applied := applyOutcome deviceID generation outcome s.events
  let events := deleteWhere (fun e => e.deviceID == deviceID && decide (e.expiresAt ≤ now)) applied
  let states := releaseState deviceID generation events s.states
  -- a deleted state row has no event left, so its cascade deletes nothing
  { s with states := states, events := events }

/-- A negative generation is refused like the generation 0. -/
def settlePushDigestClaim (generation : ℕ) (outcome : PushDigestSettlement) (now : ℤ) :
    Except String (Bool × Store) :=
  if trimSpace deviceID = "" ∨ generation = 0 then .ok (false, s)
  else do
    let partition ← pushDigestPartition outcome now
    if s.states.any fun r => r.deviceID == deviceID && r.deliveryGeneration == generation then
      let held := heldIDs s deviceID generation
      if held.any fun id => decide (id ∉ partition) then
        .error "push digest settlement omits held event"
      else if held.length ≠ partition.length then
        .error "push digest settlement contains unheld event"
      else .ok (true, settleHeld s deviceID generation outcome now)
    else .ok (false, s)

inductive Call
  | enqueue (now : ℤ) (raw : List PushDigestEnqueue)
  | claim (c : ClaimCall)
  | settle (deviceID : String) (generation : ℕ) (outcome : PushDigestSettlement) (now : ℤ)

/-- The store after a call; a call that fails is rolled back. -/
def step : Call → Store
  | .enqueue now raw =>
    match enqueuePushDigestEvents s now raw with
    | .ok (_, s') => s'
    | .error _ => s
  | .claim c => (claimDuePushDigests s c).2
  | .settle deviceID generation outcome now =>
    match settlePushDigestClaim s deviceID generation outcome now with
    | .ok (_, s') => s'
    | .error _ => s

/-- A store that some interleaving of calls leads to. -/
def Reachable : Prop := ∃ calls, s = Transition.run step Store.empty calls

end LabTether.PushDigest
