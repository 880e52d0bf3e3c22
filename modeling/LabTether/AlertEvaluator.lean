import LabTether.AlertInstances

/-!
The alert evaluator (`internal/hubapi/alerting/alert_evaluator_instances.go` and
`alert_evaluation_timing.go`) as a program of store calls. `evaluateRule` is what the slice
loop does for one rule: it reads the clock, claims the attempt, and fires or resolves by
what the condition found. `WorldStep` is all that can happen around it.
-/
namespace LabTether.Alerting

open Interference Prog Telemetry

def maxDurationSeconds : ℤ := 2 ^ 31 - 1

def zeroInstant : ℤ := -62135596800 * 10 ^ 9

def secondsOf (n : ℤ) : ℤ := n * 10 ^ 9

inductive RuleStatus
  | active
  | paused
deriving DecidableEq

structure Rule where
  id : String
  labels : Labels
  (cooldownSeconds reopenAfterSeconds : ℤ)
deriving DecidableEq

abbrev Silence := Labels

variable (rule : Rule)

def matchesSilence (silence : Silence) : Bool :=
  silence != [] && silence.all fun m => rule.labels.lookup m.1 == some m.2

/-- What the suppression check of a rule finds: the guardrails of its groups, the silences
prefetched with the slice, and those the store would list, `none` when it cannot. -/
structure Suppression where
  maintenance : Bool
  (prefetch listed : Option (List Silence))
deriving DecidableEq

variable (sup : Suppression)

/-- A full page of silences cannot prove that a matching one is absent. -/
def Suppression.silences : Option (List Silence) :=
  match sup.prefetch with
  | some l => some l
  | none =>
    match sup.listed with
    | none => none
    | some l => if 500 ≤ l.length then none else some l

def Suppression.holds (rule : Rule) : Bool :=
  sup.maintenance ||
    match sup.silences with
    | none => true
    | some l => l.any (matchesSilence rule)

/-- A store call of the evaluator: it fails once the context has ended. -/
def storeCall {β : Type} (f : World → Except String β × World) : Prog World (Except String β) :=
  atomically fun w => if w.ctxErr then (.error contextDone, w) else f w

def storeRead {β : Type} (f : World → β) : Prog World (Except String β) :=
  storeCall fun w => (.ok (f w), w)

/-- `ctx.Err() != nil`. -/
def ctxEnded : Prog World Bool := read World.ctxErr

def isAlertSuppressed : Prog World Bool := do
  if ← ctxEnded then return true
  return sup.holds rule

/-- One entry of the loop over the hold-offs. -/
def holdPassed («at» : ℤ) (anchor : Option ℤ) (seconds : ℤ) : Bool :=
  decide (0 ≤ seconds) && decide (seconds ≤ maxDurationSeconds) &&
    match anchor with
    | none => true
    | some t => decide (t + secondsOf seconds ≤ «at»)

def mayFireAfter («at» : ℤ) (history : FingerprintTiming) : Bool :=
  holdPassed «at» history.lastFirstFiredAt rule.cooldownSeconds &&
    holdPassed «at» history.lastResolvedAt rule.reopenAfterSeconds

def alertFingerprintMayFire (fingerprint : String) («at» : ℤ) : Prog World Bool := do
  match ← storeRead (alertFingerprintTiming rule.id fingerprint) with
  | .error _ => return false
  | .ok history =>
    if mayFireAfter rule «at» history then
      let ended ← ctxEnded
      return !ended && decide («at» ≠ zeroInstant)
    else return false

section

variable (H : Sha256)

def createAndDispatchFiringInstance (rule : Rule) (fingerprint : String) (scope : FiringScope) :
    Prog World Unit := do
  match ← storeCall (createAlertInstance H rule.id fingerprint rule.labels) with
  | .error _ => return ()
  | .ok inst =>
    let _ ← storeCall (fireAlertInstance inst.id scope)
    return ()

def fireOrRefireAlertWithScopeAt (rule : Rule) (sup : Suppression) («at» : ℤ)
    (scope : FiringScope) : Prog World Unit := do
  if ← ctxEnded then return ()
  let fingerprint := generateFingerprint H rule.id rule.labels
  match ← storeRead (getActiveInstanceByFingerprint rule.id fingerprint) with
  | .error _ => return ()
  | .ok (some existing) =>
    if existing.status = .pending then
      -- a pending instance stands for a suppressed alert
      if ← isAlertSuppressed rule sup then
        let _ ← storeCall (updateAlertInstanceLastFired existing.id)
        return ()
      if ← alertFingerprintMayFire rule fingerprint «at» then
        match ← storeCall (updateAlertInstanceStatus existing.id .resolved) with
        | .error _ => return ()
        | .ok _ => createAndDispatchFiringInstance H rule fingerprint scope
      else return ()
    else
      let _ ← storeCall (updateAlertInstanceLastFired existing.id)
      return ()
  | .ok none =>
    if ← isAlertSuppressed rule sup then
      let _ ← storeCall (createAlertInstance H rule.id fingerprint rule.labels)
      return ()
    if ← alertFingerprintMayFire rule fingerprint «at» then
      createAndDispatchFiringInstance H rule fingerprint scope
    else return ()

end

/-- The inner loop of `resolveStaleInstances`, with the number resolved so far and whether
the context ended in it. -/
def resolveInstances : List AlertInstance → ℕ → Prog World (ℕ × Bool)
  | [], resolved => return (resolved, false)
  | inst :: rest, resolved => do
    if ← ctxEnded then return (resolved, true)
    match ← storeCall (updateAlertInstanceStatus inst.id .resolved) with
    | .error _ => resolveInstances rest resolved
    | .ok _ =>
      if ← ctxEnded then return (resolved + 1, true)
      resolveInstances rest (resolved + 1)

def resolveStatuses (rule : Rule) : List InstanceStatus → ℕ → Prog World ℕ
  | [], resolved => return resolved
  | status :: rest, resolved => do
    match ← storeRead (listAlertInstances rule.id status 100) with
    | .error _ => resolveStatuses rule rest resolved
    | .ok instances =>
      let result ← resolveInstances instances resolved
      if result.2 then return result.1
      resolveStatuses rule rest result.1

def resolveStaleInstances : Prog World ℕ := do
  if ← ctxEnded then return 0
  let _suppressed ← isAlertSuppressed rule sup
  resolveStatuses rule [.pending, .firing, .acknowledged] 0

section

variable (H : Sha256)

/-- What reading the condition of a rule gives. -/
inductive Outcome
  | failed
  | quiet
  | triggered (scope : FiringScope)
deriving DecidableEq

/-- The evaluation of one rule: whether its attempt is claimed, what its condition gives and
what suppresses it. -/
structure Evaluation where
  rule : Rule
  claimed : Bool
  outcome : Outcome
  suppression : Suppression
deriving DecidableEq

def evaluateSingleRuleAt (e : Evaluation) («at» : ℤ) : Prog World Unit := do
  if ← ctxEnded then return ()
  match e.outcome with
  | .failed => return ()
  | .triggered scope => fireOrRefireAlertWithScopeAt H e.rule e.suppression «at» scope
  | .quiet =>
    let _ ← resolveStaleInstances e.rule e.suppression
    return ()

def evaluateRule (e : Evaluation) : Prog World Unit := do
  let «at» ← read World.clock
  if ← ctxEnded then return ()
  if e.claimed then evaluateSingleRuleAt H e «at» else return ()

inductive ManualAction
  | acknowledge
  | resolve
deriving DecidableEq

def ManualAction.status : ManualAction → InstanceStatus
  | .acknowledge => .acknowledged
  | .resolve => .resolved

/-- What happens around the evaluator. -/
inductive WorldOp
  | wait (n : ℕ)
  | context (ended : Bool)
  | manual (id : ℕ) (action : ManualAction)
deriving DecidableEq

def WorldOp.apply (w : World) : WorldOp → World
  | .wait n => { w with clock := w.clock + n }
  | .context ended => { w with ctxErr := ended }
  | .manual id action => (updateAlertInstanceStatus id action.status w).2

def WorldStep (w w' : World) : Prop := ∃ op : WorldOp, w' = op.apply w

/-- A transition of a run: a step around the evaluator or inside one of its evaluations. -/
def RunStep (w w' : World) : Prop :=
  WorldStep w w' ∨ ∃ e tr, Exec WorldStep (evaluateRule H e) w tr w'

/-- The worlds a run leads to: evaluations one after the other, each complete or cut short,
with anything around and within them. -/
def Runs : World → World → Prop := Relation.ReflTransGen (RunStep H)

end

end LabTether.Alerting
