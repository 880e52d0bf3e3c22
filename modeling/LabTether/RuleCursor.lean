import LabTether.AlertEvaluator
import LabTether.Smallest
import LabTether.Transition

/-!
The sweep of the evaluator over the alert rules
(`internal/hubapi/alerting/alert_rule_evaluation_cursor.go`,
`internal/persistence/memory_alert_rule_evaluation_page.go` and its Postgres twin). A cursor
holds the last id that was considered and the upper bound of the sweep; pages of active rules
are read after it. A tick works until its time is over, and the next one goes on from the
cursor. Rules are created, deleted, paused and activated at any time. Of a rule its id and
status are kept; whether an attempt is claimed and its evaluation carried through is an
input of the step. Strings compare by code points, which is the order of their UTF-8 bytes.
-/
namespace LabTether.RuleSweep

open Alerting Smallest

structure RuleRow where
  id : String
  status : RuleStatus
deriving DecidableEq

structure EvaluationCursor where
  started : Bool
  (afterID throughID : String)

def EvaluationCursor.zero : EvaluationCursor := ⟨false, "", ""⟩

structure EvaluationPage where
  rules : List RuleRow
  throughID : String
  done : Bool

def evaluationPageSize : ℕ := 128

variable (cursor : EvaluationCursor)

/-- `validateAlertRuleEvaluationPage` of the store. -/
def validateRequest (limit : ℕ) : Except String Unit :=
  if limit < 1 ∨ evaluationPageSize < limit then .error "invalid alert evaluation page size"
  else if (cursor.started = false ∧ (cursor.afterID ≠ "" ∨ cursor.throughID ≠ "")) ∨
      cursor.throughID < cursor.afterID then
    .error "invalid alert evaluation cursor"
  else .ok ()

/-- One round of the scan of the memory store: the upper bound and the ids kept so far. -/
def scanRule (limit : ℕ) (acc : String × List String) (r : RuleRow) :
    String × List String :=
  if r.status ≠ .active then acc
  else
    let through := if cursor.started = false ∧ acc.1 < r.id then r.id else acc.1
    if r.id ≤ cursor.afterID ∨ (cursor.started = true ∧ cursor.throughID < r.id) then
      (through, acc.2)
    else (through, offer (limit + 1) acc.2 r.id)

variable (rules : List RuleRow)

def pageActiveAlertRules (cursor : EvaluationCursor) (limit : ℕ) :
    Except String EvaluationPage := do
  validateRequest cursor limit
  let scan := rules.foldl (scanRule cursor limit) (cursor.throughID, [])
  return {
    rules := (scan.2.take limit).filterMap fun id => rules.find? fun r => r.id == id
    throughID := scan.1
    done := decide (scan.2.length ≤ limit) }

/-- The same page by SQL, in one snapshot. -/
def pageActiveAlertRulesPostgres (cursor : EvaluationCursor) (limit : ℕ) :
    Except String EvaluationPage := do
  validateRequest cursor limit
  let active := rules.filter fun r => r.status == .active
  let through := if cursor.started then cursor.throughID else (active.map (·.id)).foldl max ""
  let rows := ((active.filter fun r => decide (cursor.afterID < r.id ∧ r.id ≤ through)).insertionSort
    fun a b => a.id ≤ b.id).take (limit + 1)
  return { rules := rows.take limit, throughID := through, done := decide (rows.length ≤ limit) }

/-- The loop over the rules of a page in `validAlertRuleEvaluationPage`. -/
def validRules (throughID : String) : String → List RuleRow → Bool
  | _, [] => true
  | previous, r :: rest =>
    decide (previous < r.id) && decide (r.id ≤ throughID) && r.status == .active &&
      validRules throughID r.id rest

def validAlertRuleEvaluationPage (page : EvaluationPage) : Bool :=
  decide (page.rules.length ≤ evaluationPageSize) && (page.done || page.rules != []) &&
    (!cursor.started || page.throughID == cursor.throughID) &&
    decide (cursor.afterID ≤ page.throughID) &&
    validRules page.throughID cursor.afterID page.rules

inductive SlicePhase
  | idle
  | reading
  | working (rest : List RuleRow) (done : Bool)

/-- `idgen.New` for a rule: the nanoseconds of the clock and a counter. -/
def newRuleID (nano : Fin (2 ^ 63)) (n : Fin (2 ^ 64)) : String :=
  "arl_" ++ toString nano.val ++ "_" ++ toString n.val

inductive RuleEdit
  | create (nano : Fin (2 ^ 63)) (n : Fin (2 ^ 64)) (status : RuleStatus)
  | delete (id : String)
  | setStatus (id : String) (status : RuleStatus)

def RuleEdit.apply : RuleEdit → List RuleRow
  | .create nano n status =>
    rules.filter (fun r => r.id != newRuleID nano n) ++ [⟨newRuleID nano n, status⟩]
  | .delete id => rules.filter fun r => r.id != id
  | .setStatus id status => rules.map fun r => if r.id = id then { r with status := status } else r

structure SweepState where
  rules : List RuleRow
  cursor : EvaluationCursor
  phase : SlicePhase

def SweepState.start : SweepState := ⟨[], .zero, .idle⟩

inductive SweepOp
  | tick (prefetched : Bool)
  | read (limit : ℕ) (fails : Bool)
  | next (ended : Bool) (evaluated : Bool)
  | edit (e : RuleEdit)

variable (s : SweepState)

def sweepStep : SweepOp → SweepState
  | .tick prefetched =>
    match s.phase with
    | .idle => if prefetched then { s with phase := .reading } else s
    | _ => s
  | .read limit fails =>
    match s.phase with
    | .reading =>
      if fails then { s with phase := .idle }
      else
        match pageActiveAlertRules s.rules s.cursor limit with
        | .error _ => { s with phase := .idle }
        | .ok page =>
          if validAlertRuleEvaluationPage s.cursor page then
            { s with
              cursor := { s.cursor with started := true, throughID := page.throughID }
              phase := .working page.rules page.done }
          else { s with phase := .idle }
    | _ => s
  | .next ended _ =>
    match s.phase with
    | .working (r :: rest) done =>
      if ended then { s with phase := .idle }
      else { s with cursor := { s.cursor with afterID := r.id }, phase := .working rest done }
    | .working [] done =>
      if done then { s with cursor := .zero, phase := .idle } else { s with phase := .reading }
    | _ => s
  | .edit e => { s with rules := e.apply s.rules }

/-- The rule that a step considers: it tries to claim it, and evaluates it if that succeeds. -/
def considers : SweepOp → Option String
  | .next false _ =>
    match s.phase with
    | .working (r :: _) _ => some r.id
    | _ => none
  | _ => none

def evaluates : SweepOp → Option String
  | .next false true => considers s (.next false true)
  | _ => none

/-- A step that ends a page all of whose rules were considered. -/
def finishesPage : SweepOp → Bool
  | .next _ _ => match s.phase with
    | .working [] _ => true
    | _ => false
  | _ => false

/-- What the steps of a run yield, in order. -/
def collect {β : Type} (f : SweepState → SweepOp → Option β) (s : SweepState) : List SweepOp → List β
  | [] => []
  | op :: ops => (f s op).toList ++ collect f (sweepStep s op) ops

def finishedPages (s : SweepState) : List SweepOp → ℕ
  | [] => 0
  | op :: ops => (if finishesPage s op then 1 else 0) + finishedPages (sweepStep s op) ops

end LabTether.RuleSweep
