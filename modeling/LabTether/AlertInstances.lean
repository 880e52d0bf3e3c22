import LabTether.Interference
import LabTether.Table
import LabTether.Telemetry

/-!
Alert instances and the evaluator that opens and closes them (`internal/alerts/types.go`,
`internal/persistence/memory_alert_instance_store.go` with its timing and firing files,
`internal/hubapi/alerting/alert_evaluator_instances.go`). The evaluator is one program: it holds
a lock for its whole slice of rules. Its calls of the store are atomic, and between them the
clock moves, the context may end and operators acknowledge or resolve instances. A call under an
ended context fails and changes nothing. Times are nanoseconds. Ids are numbers that are never
issued twice. What a condition finds, whether maintenance suppresses a rule and which silences
are loaded are inputs of an evaluation.
-/
namespace LabTether.Alerting

open GoStrings Table Telemetry

inductive InstanceStatus
  | pending
  | firing
  | acknowledged
  | resolved
deriving DecidableEq

def canTransitionInstanceStatus (old new : InstanceStatus) : Bool :=
  if old = new then true
  else
    match old with
    | .pending => new == .firing || new == .resolved
    | .firing => new == .acknowledged || new == .resolved
    | .acknowledged => new == .firing || new == .resolved
    | .resolved => false

structure FiringScope where
  version : ℤ
  (assetIDs groupIDs syntheticCheckIDs : List String)
deriving DecidableEq

def normalizeScopeIDs (ids : List String) : Except String (List String) :=
  if ids.any fun id => id == "" || trimSpace id != id then
    .error "invalid alert firing scope identity"
  else .ok (ids.dedup.insertionSort (· ≤ ·))

def normalizeFiringScope (input : FiringScope) : Except String FiringScope :=
  if input.version ≠ 1 then .error "unknown alert firing scope version"
  else do
    let assetIDs ← normalizeScopeIDs input.assetIDs
    let groupIDs ← normalizeScopeIDs input.groupIDs
    let syntheticCheckIDs ← normalizeScopeIDs input.syntheticCheckIDs
    return ⟨1, assetIDs, groupIDs, syntheticCheckIDs⟩

structure AlertInstance where
  id : ℕ
  (ruleID fingerprint : String)
  status : InstanceStatus
  firingScope : Option FiringScope
  (firstFiredAt resolvedAt : Option ℤ)
  (lastFiredAt updatedAt : ℤ)

def isActive (i : AlertInstance) : Bool :=
  i.status == .pending || i.status == .firing || i.status == .acknowledged

/-- The store, the clock, and whether the evaluator's context has ended. -/
structure World where
  instances : List AlertInstance
  nextID : ℕ
  clock : ℤ
  ctxErr : Bool

def World.start (clock : ℤ) : World := ⟨[], 0, clock, false⟩

/-- SHA-256 in hexadecimal. -/
structure Sha256 where
  hex : String → String
  trimmed : ∀ s, trimSpace (hex s) = hex s
  nonempty : ∀ s, hex s ≠ ""

def generateFingerprint (H : Sha256) (ruleID : String) (labels : Labels) : String :=
  H.hex (ruleID ++ "\x00" ++
    String.join (labels.sorted.map fun e => e.1 ++ "\x00" ++ e.2 ++ "\x00"))

def contextDone : String := "context canceled"

def createAlertInstance (H : Sha256) (ruleID : String) (fingerprint : String) (labels : Labels)
    (w : World) : Except String AlertInstance × World :=
  let fingerprint := trimSpace fingerprint
  let inst : AlertInstance := {
    id := w.nextID
    ruleID := trimSpace ruleID
    fingerprint := if fingerprint = "" then generateFingerprint H ruleID labels else fingerprint
    status := .pending
    firingScope := none
    firstFiredAt := none
    resolvedAt := none
    lastFiredAt := w.clock
    updatedAt := w.clock }
  (.ok inst, { w with instances := w.instances ++ [inst], nextID := w.nextID + 1 })

variable (ruleID : String) (fingerprint : String)

def getActiveInstanceByFingerprint (w : World) :
    Option AlertInstance :=
  w.instances.find? fun i =>
    i.ruleID == trimSpace ruleID && i.fingerprint == trimSpace fingerprint && isActive i

def updatedBefore (a b : AlertInstance) : Prop :=
  b.updatedAt < a.updatedAt ∨ (b.updatedAt = a.updatedAt ∧ b.id ≤ a.id)
  deriving Decidable

/-- `ListAlertInstances` with a rule, a status and a limit, the latest change first. -/
def listAlertInstances (status : InstanceStatus) (limit : ℕ) (w : World) :
    List AlertInstance :=
  ((w.instances.filter fun i =>
    (trimSpace ruleID == "" || i.ruleID == trimSpace ruleID) && i.status == status).insertionSort
      updatedBefore).take limit

def instanceOf (id : ℕ) (w : World) : Option AlertInstance := w.instances.find? fun i => i.id == id

def putInstance (inst : AlertInstance) (w : World) : World :=
  { w with instances := updateWhere (fun i => i.id == inst.id) (fun _ => inst) w.instances }

def moveStatus (now : ℤ) (status : InstanceStatus) (i : AlertInstance) : AlertInstance :=
  let fires := i.status = .pending ∧ status = .firing ∧ i.firstFiredAt = none
  { i with
    firstFiredAt := if fires then some now else i.firstFiredAt
    lastFiredAt := if fires then now else i.lastFiredAt
    status := status
    updatedAt := now
    resolvedAt := if status = .resolved ∧ i.resolvedAt = none then some now else i.resolvedAt }

def statusText : InstanceStatus → String
  | .pending => "pending"
  | .firing => "firing"
  | .acknowledged => "acknowledged"
  | .resolved => "resolved"

def updateAlertInstanceStatus (id : ℕ) (status : InstanceStatus) (w : World) :
    Except String AlertInstance × World :=
  match instanceOf id w with
  | none => (.error "alert instance not found", w)
  | some i =>
    if canTransitionInstanceStatus i.status status = false then
      (.error ("cannot transition alert instance from " ++ statusText i.status ++ " to " ++
        statusText status), w)
    else if i.status = status then (.ok i, w)
    else (.ok (moveStatus w.clock status i), putInstance (moveStatus w.clock status i) w)

def updateAlertInstanceLastFired (id : ℕ) (w : World) : Except String Unit × World :=
  match instanceOf id w with
  | none => (.error "alert instance not found", w)
  | some i => (.ok (), putInstance { i with lastFiredAt := w.clock, updatedAt := w.clock } w)

def fireInstance (now : ℤ) (scope : FiringScope) (i : AlertInstance) : AlertInstance :=
  { i with
    status := .firing
    firstFiredAt := some now
    lastFiredAt := now
    updatedAt := now
    firingScope := some scope }

/-- The transition to firing, with the scope that the condition witnessed. -/
def fireAlertInstance (id : ℕ) (scope : FiringScope) (w : World) :
    Except String AlertInstance × World :=
  match normalizeFiringScope scope with
  | .error e => (.error e, w)
  | .ok normalized =>
    match instanceOf id w with
    | none => (.error "alert instance not found", w)
    | some i =>
      if i.status = .firing ∨ i.status = .acknowledged then (.ok i, w)
      else if i.status ≠ .pending ∨ i.firstFiredAt ≠ none ∨ i.firingScope ≠ none then
        (.error "alert instance is not a fresh pending instance", w)
      else (.ok (fireInstance w.clock normalized i), putInstance (fireInstance w.clock normalized i) w)

structure FingerprintTiming where
  (lastFirstFiredAt lastResolvedAt : Option ℤ)

def laterOf (best : Option ℤ) (t : ℤ) : Option ℤ :=
  match best with
  | none => some t
  | some b => if b < t then some t else some b

def addTiming (out : FingerprintTiming) (i : AlertInstance) :
    FingerprintTiming :=
  if i.ruleID ≠ trimSpace ruleID ∨ i.fingerprint ≠ trimSpace fingerprint then out
  else
    match i.firstFiredAt with
    | none => out
    | some fired => {
        lastFirstFiredAt := laterOf out.lastFirstFiredAt fired
        lastResolvedAt :=
          match i.resolvedAt with
          | none => out.lastResolvedAt
          | some resolved => laterOf out.lastResolvedAt resolved }

def alertFingerprintTiming (w : World) : FingerprintTiming :=
  w.instances.foldl (addTiming ruleID fingerprint) ⟨none, none⟩

end LabTether.Alerting
