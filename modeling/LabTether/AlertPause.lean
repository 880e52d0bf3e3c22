import LabTether.AlertRuns
import LabTether.Transition

/-!
Pausing a rule while the evaluator is at work (`HandleAlertRuleActions` and
`resolvePausedRuleAlerts` against the evaluator's slice). The evaluator reads the rule from
a page of active rules, takes the time, claims the attempt if the rule is still active, and
evaluates. The handler reads the rule, writes the paused status and sweeps the open instances
of the rule until a pass resolves none. Each store call is one step, in any order. The sweep
has a context of its own; it sees the same store.
-/
namespace LabTether.Alerting

open GoStrings Interference

inductive EvaluatorPhase : Type 1
  | idle
  | paged (e : Evaluation)
  | stamped (e : Evaluation) («at» : ℤ)
  | running (p : Prog World Unit)

inductive HandlerPhase : Type 1
  | ready
  | loaded (existing : RuleStatus)
  | looping
  | sweeping (p : Prog World ℕ)
  | done

structure PauseSystem : Type 1 where
  world : World
  status : RuleStatus
  pauseErr : Bool
  evaluator : EvaluatorPhase
  handler : HandlerPhase

inductive PauseOp
  | page (e : Evaluation)
  | stamp
  | claim
  | evaluate
  | load
  | update
  | sweep (sup : Suppression)
  | timeout
  | around (op : WorldOp)
deriving DecidableEq

def World.withCtx (w : World) (ended : Bool) : World := { w with ctxErr := ended }

def PauseSystem.sweepView (s : PauseSystem) : World := s.world.withCtx s.pauseErr

/-- The rule as an evaluation of it has it: edits never move the id. -/
def ruleAs (ruleID : String) (rule : Rule) : Rule := { rule with id := ruleID }

def pauseStep (H : Sha256) (rule : Rule) (s : PauseSystem) : PauseOp → PauseSystem
  | .page e =>
    match s.evaluator with
    | .idle =>
      if s.status = .active then
        { s with evaluator := .paged { e with rule := ruleAs rule.id e.rule } }
      else s
    | _ => s
  | .stamp =>
    match s.evaluator with
    | .paged e =>
      if s.world.ctxErr then { s with evaluator := .idle }
      else { s with evaluator := .stamped e s.world.clock }
    | _ => s
  | .claim =>
    match s.evaluator with
    | .stamped e t =>
      if s.world.ctxErr = false ∧ s.status = .active ∧ e.claimed = true then
        { s with evaluator := .running (evaluateSingleRuleAt H e t) }
      else { s with evaluator := .idle }
    | _ => s
  | .evaluate =>
    match s.evaluator with
    | .running (.call f k) =>
      { s with world := (f s.world).2, evaluator := .running (k (f s.world).1) }
    | .running (.ret _) => { s with evaluator := .idle }
    | _ => s
  | .load =>
    match s.handler with
    | .ready => { s with handler := .loaded s.status }
    | _ => s
  | .update =>
    match s.handler with
    | .loaded existing =>
      { s with status := .paused, handler := if existing = .paused then .done else .looping }
    | _ => s
  | .sweep sup =>
    match s.handler with
    | .looping =>
      if s.pauseErr then { s with handler := .done }
      else { s with handler := .sweeping (resolveStaleInstances rule sup) }
    | .sweeping (.call f k) =>
      { s with
        world := (f s.sweepView).2.withCtx s.world.ctxErr
        handler := .sweeping (k (f s.sweepView).1) }
    | .sweeping (.ret n) => { s with handler := if n = 0 then .done else .looping }
    | _ => s
  | .timeout => { s with pauseErr := true }
  | .around op => { s with world := op.apply s.world }

/-- The rule is active and the pause request comes in. -/
def PauseSystem.start (w : World) : PauseSystem := ⟨w, .active, false, .idle, .ready⟩

def HandlerPhase.finished : HandlerPhase → Bool
  | .done => true
  | _ => false

def EvaluatorPhase.finished : EvaluatorPhase → Bool
  | .idle => true
  | _ => false

def EvaluatorPhase.underWay : EvaluatorPhase → Bool
  | .running _ => true
  | _ => false

def NoneIn (ruleID : String) (status : InstanceStatus) (w : World) : Prop :=
  ∀ i ∈ w.instances, i.ruleID = trimSpace ruleID → i.status ≠ status

/-- Nothing of the rule is pending or firing. -/
def Silent (ruleID : String) (w : World) : Prop :=
  NoneIn ruleID .pending w ∧ NoneIn ruleID .firing w

/-- The status is written while no evaluation of the rule is past its claim, and the time of
the sweep does not run out. -/
def Orderly (s : PauseSystem) (op : PauseOp) : Prop :=
  (op = .update → s.evaluator.underWay = false) ∧ op ≠ .timeout
  deriving Decidable

end LabTether.Alerting
