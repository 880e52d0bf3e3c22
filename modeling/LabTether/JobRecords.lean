import LabTether.GoStrings
import LabTether.Sha256
import LabTether.Table

/-!
The rows of the job queue and of the business records its jobs act on. `job_queue`,
`terminal_commands`, `action_runs`, `update_runs` and `scheduled_tasks` are kept with the
columns that the queue, the job-execution transactions and the schedule store read or write.
Times are microseconds, with 0 for the zero time. A payload keeps its JSON text, which queue
rows compare, next to what decoding the text as each job type gives.
-/
namespace LabTether

inductive JobKind
  | terminalCommand
  | actionRun
  | updateRun
  | scheduleRun
  | other (name : String)
deriving DecidableEq

inductive JobStatus
  | queued
  | processing
  | completed
  | failed
  | deadLettered
deriving DecidableEq

/-- A row in one of these states is never claimed again. -/
def JobStatus.isTerminal : JobStatus → Bool
  | .completed | .deadLettered => true
  | _ => false

/-- The status texts of business rows, with the two that `lockJobBusiness` makes up
(`superseded`, `disabled`). -/
inductive RunStatus
  | unset
  | queued
  | running
  | succeeded
  | failed
  | partialRun
  | blocked
  | skipped
  | cancelled
  | invalid
  | superseded
  | disabled
  | other (text : String)
deriving DecidableEq

def RunStatus.isActive : RunStatus → Bool
  | .queued | .running => true
  | _ => false

def RunStatus.finalJobStatus : RunStatus → Bool
  | .succeeded | .failed => true
  | _ => false

/-- The statuses `writeResult` accepts for a schedule occurrence. -/
def RunStatus.finalScheduleStatus : RunStatus → Bool
  | .succeeded | .failed | .partialRun | .blocked | .skipped | .cancelled => true
  | _ => false

def RunStatus.text : RunStatus → String
  | .unset => ""
  | .queued => "queued"
  | .running => "running"
  | .succeeded => "succeeded"
  | .failed => "failed"
  | .partialRun => "partial"
  | .blocked => "blocked"
  | .skipped => "skipped"
  | .cancelled => "cancelled"
  | .invalid => "invalid"
  | .superseded => "superseded"
  | .disabled => "disabled"
  | .other text => text

inductive RunType
  | command
  | connectorAction
  | other (name : String)
deriving DecidableEq

/-- A `map[string]string` as jsonb keeps it: one value per key. -/
abbrev Params := List (String × String)

/-- `m[key]`, with the empty string for a key that is not there. -/
def Params.get (m : Params) (key : String) : String := (m.lookup key).getD ""

/-- `m ->> key`, with `none` for NULL. -/
def Params.field (m : Params) (key : String) : Option String := m.lookup key

structure CommandJob where
  (jobID sessionID commandID actorID target command mode : String)
deriving DecidableEq

/-- `actions.Job`. -/
structure ActionJob where
  (jobID runID : String)
  type : RunType
  (actorID target command connectorID actionID : String)
  params : Params
  dryRun : Bool
  (timeoutSec requestedAt : ℕ)
deriving DecidableEq

/-- `updates.Job`, with the two plan fields that identify the run. -/
structure UpdateJob where
  (jobID runID actorID : String)
  dryRun : Bool
  (planID planName : String)
deriving DecidableEq

/-- `schedules.ExecutionJob`; `scheduledFor` is the RFC 3339 text of the UTC time. -/
structure ExecutionJob where
  (jobID scheduleID scheduleName scheduledFor command : String)
  targets : List String
  (groupID actorID : String)
deriving DecidableEq

/-- A payload: its text, and what `json.Unmarshal` makes of it for each job type
(`none` when decoding fails). -/
structure Payload where
  text : String
  asTerminal : Option CommandJob
  asAction : Option ActionJob
  asUpdate : Option UpdateJob
  asSchedule : Option ExecutionJob
deriving DecidableEq

/-- A row of `job_queue`. -/
structure JobRow where
  id : String
  kind : JobKind
  status : JobStatus
  payload : Payload
  (attempts maxAttempts : ℕ)
  error : String
  (createdAt updatedAt availableAt : ℕ)
  (lockedAt completedAt : Option ℕ)
  lockToken : Option String
deriving DecidableEq

/-- `jobqueue.Job`: a worker's own copy of the row it claimed. -/
structure Job where
  id : String
  kind : JobKind
  status : JobStatus
  payload : Payload
  (attempts maxAttempts : ℕ)
  error : String
  (createdAt updatedAt availableAt : ℕ)
  (lockedAt completedAt : Option ℕ)
  lockToken : String
deriving DecidableEq

/-- `scanJob`: a NULL token scans as the empty string. -/
def scanJob (r : JobRow) : Job where
  id := r.id
  kind := r.kind
  status := r.status
  payload := r.payload
  attempts := r.attempts
  maxAttempts := r.maxAttempts
  error := r.error
  createdAt := r.createdAt
  updatedAt := r.updatedAt
  availableAt := r.availableAt
  lockedAt := r.lockedAt
  completedAt := r.completedAt
  lockToken := r.lockToken.getD ""

/-- A row of `terminal_commands`. -/
structure CommandRow where
  (id sessionID actorID target body mode : String)
  status : RunStatus
  output : String
  exitCode : Option ℤ
deriving DecidableEq

/-- A row of `action_runs`; nullable text columns are NULL as `none`. -/
structure ActionRow where
  id : String
  type : RunType
  actorID : String
  (target command connectorID actionID : Option String)
  params : Option Params
  dryRun : Bool
  status : RunStatus
  (output error : String)
deriving DecidableEq

/-- A row of `update_runs`. -/
structure UpdateRow where
  (id planID planName actorID : String)
  dryRun : Bool
  status : RunStatus
  (summary error : String)
deriving DecidableEq

/-- A row of `scheduled_tasks`. -/
structure ScheduleRow where
  (id name cronExpr command : String)
  targets : List String
  groupID : Option String
  enabled : Bool
  createdBy : String
  createdAt : ℕ
  (lastRunAt nextRunAt : Option ℕ)
  lastRunStatus : RunStatus
  lastError : String
  lastRunJobID : Option String
deriving DecidableEq

structure DB where
  queue : List JobRow
  commands : List CommandRow
  actionRuns : List ActionRow
  updateRuns : List UpdateRow
  schedules : List ScheduleRow
deriving DecidableEq

def DB.empty : DB := ⟨[], [], [], [], []⟩

def DB.withQueue (db : DB) (queue : List JobRow) : DB := { db with queue := queue }

/-- The errors that callers tell apart, and the texts of the others. `database` stands
for a statement or a commit that the database refused. -/
inductive Err
  | claimLost
  | businessIdentity
  | notFound
  | integerOutOfRange
  | database
  | message (text : String)
deriving DecidableEq

/-- `idgen.New(kind)`: the prefix, then a part that never repeats. -/
def idgenNew (kind unique : String) : String := kind ++ "_" ++ unique

end LabTether
