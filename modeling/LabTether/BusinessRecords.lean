import LabTether.JobQueue

/-!
The business record behind a queue job: `lockJobBusiness`, `markRunning`,
`writeResult` and `closeInterruptedScheduleChildren` of `internal/persistence`.
A job names its record through the payload; locking it reads the status under which
the transaction decides. `Effect` says what these writes, and the API's own writes to
the same tables, can do to business rows.
-/
namespace LabTether.BusinessRecords

open Table GoStrings

def interruptedJobOutcome : String :=
  "previous execution attempt was interrupted; outcome unknown; work was not replayed"

def maxScheduledTaskErrorLength : ℕ := 1024

/-- `truncateScheduledTaskError`; a cut inside a character is not storable text. -/
def truncateScheduledTaskError (value : String) : Except Err String :=
  match truncateBytes maxScheduledTaskErrorLength (trimSpace value) with
  | none => .error .database
  | some text => .ok text

variable (db : DB)

def updateCommands (p : CommandRow → Bool) (f : CommandRow → CommandRow) : DB :=
  { db with commands := updateWhere p f db.commands }

def updateActionRuns (p : ActionRow → Bool) (f : ActionRow → ActionRow) : DB :=
  { db with actionRuns := updateWhere p f db.actionRuns }

def updateUpdateRuns (p : UpdateRow → Bool) (f : UpdateRow → UpdateRow) : DB :=
  { db with updateRuns := updateWhere p f db.updateRuns }

def updateSchedules (p : ScheduleRow → Bool) (f : ScheduleRow → ScheduleRow) : DB :=
  { db with schedules := updateWhere p f db.schedules }

/-- The decoded payload of a job, by kind. -/
inductive Owner
  | terminal (p : CommandJob)
  | action (p : ActionJob)
  | update (p : UpdateJob)
  | schedule (p : ExecutionJob)

structure JobBusiness where
  status : RunStatus
  owner : Owner

def CommandNamed (p : CommandJob) (r : CommandRow) : Prop :=
  r.id = p.commandID ∧ r.sessionID = p.sessionID ∧ r.actorID = p.actorID ∧
    r.target = p.target ∧ r.body = p.command ∧ r.mode = p.mode
  deriving Decidable

def ActionNamed (p : ActionJob) (r : ActionRow) : Prop :=
  r.id = p.runID ∧ r.type = p.type ∧ r.actorID = p.actorID ∧ r.target.getD "" = p.target ∧
    r.command.getD "" = p.command ∧ r.connectorID.getD "" = p.connectorID ∧
    r.actionID.getD "" = p.actionID ∧ r.params.getD [] = p.params ∧ r.dryRun = p.dryRun
  deriving Decidable

def UpdateNamed (p : UpdateJob) (r : UpdateRow) : Prop :=
  r.id = p.runID ∧ r.planID = p.planID ∧ r.actorID = p.actorID ∧ r.dryRun = p.dryRun ∧
    r.planName = p.planName
  deriving Decidable

/-- `lockActionJob`: no row is `pgx.ErrNoRows`. -/
def lockActionJob (p : ActionJob) : Option RunStatus :=
  (db.actionRuns.find? fun r => ActionNamed p r).map ActionRow.status

def occurrenceStatus (p : ExecutionJob) : RunStatus :=
  match db.schedules.find? fun t => t.id = p.scheduleID with
  | none => .superseded
  | some t =>
    if t.lastRunJobID.getD "" ≠ p.jobID then .superseded
    else if !t.enabled && t.lastRunStatus = .queued then .disabled
    else t.lastRunStatus

/-- The status a lookup found, for a job whose payload carries its own id. -/
def identified (logicalID : String) (owner : Owner) (status : Option RunStatus) :
    Except Err JobBusiness :=
  if logicalID = "" then .error .businessIdentity
  else
    match status with
    | none => .error .businessIdentity
    | some status => .ok ⟨status, owner⟩

def lockJobBusiness (job : Job) : Except Err JobBusiness :=
  match job.kind with
  | .terminalCommand =>
    match job.payload.asTerminal with
    | none => .error .businessIdentity
    | some p =>
      identified p.jobID (.terminal p)
        ((db.commands.find? fun r => CommandNamed p r).map CommandRow.status)
  | .actionRun =>
    match job.payload.asAction with
    | none => .error .businessIdentity
    | some p => identified p.jobID (.action p) (lockActionJob db p)
  | .updateRun =>
    match job.payload.asUpdate with
    | none => .error .businessIdentity
    | some p =>
      identified p.jobID (.update p)
        ((db.updateRuns.find? fun r => UpdateNamed p r).map UpdateRow.status)
  | .scheduleRun =>
    match job.payload.asSchedule with
    | none => .error .businessIdentity
    | some p =>
      -- a scheduled occurrence is queued under its own logical id
      if p.jobID ≠ job.id then .error .businessIdentity
      else identified p.jobID (.schedule p) (some (occurrenceStatus db p))
  | .other _ => .error .businessIdentity

def markRunning : Owner → DB
  | .terminal p =>
    updateCommands db (fun r => r.id = p.commandID) fun r => { r with status := .running }
  | .action p =>
    updateActionRuns db (fun r => r.id = p.runID) fun r => { r with status := .running }
  | .update p =>
    updateUpdateRuns db (fun r => r.id = p.runID) fun r => { r with status := .running }
  | .schedule p =>
    updateSchedules db (fun t => t.id = p.scheduleID) fun t => { t with lastRunStatus := .running }

structure CommandResult where
  (jobID sessionID commandID : String)
  status : RunStatus
  output : String
  exitCode : Option ℤ

structure ActionResult where
  (jobID runID : String)
  status : RunStatus
  (output error : String)

structure UpdateResult where
  (jobID runID : String)
  status : RunStatus
  (summary error : String)

structure ScheduleExecutionResult where
  status : RunStatus
  error : String

structure JobExecutionResult where
  terminal : Option CommandResult
  action : Option ActionResult
  update : Option UpdateResult
  schedule : Option ScheduleExecutionResult

def JobExecutionResult.count (r : JobExecutionResult) : ℕ :=
  r.terminal.isSome.toNat + r.action.isSome.toNat + r.update.isSome.toNat + r.schedule.isSome.toNat

def scheduleResult (status : RunStatus) (error : String) : JobExecutionResult :=
  ⟨none, none, none, some ⟨status, error⟩⟩

def failedResult (reason : String) : Owner → JobExecutionResult
  | .terminal p => ⟨some ⟨p.jobID, p.sessionID, p.commandID, .failed, reason, none⟩, none, none, none⟩
  | .action p => ⟨none, some ⟨p.jobID, p.runID, .failed, "", reason⟩, none, none⟩
  | .update p => ⟨none, none, some ⟨p.jobID, p.runID, .failed, "", reason⟩, none⟩
  | .schedule _ => scheduleResult .failed reason

def interruptedResult (o : Owner) : JobExecutionResult := failedResult interruptedJobOutcome o

/-- `writeActionJobResult`, without the action's steps. -/
def writeActionJobResult (r : ActionResult) : Except Err DB :=
  if r.status.finalJobStatus then
    .ok (updateActionRuns db (fun a => a.id = r.runID) fun a =>
      { a with status := r.status, output := trimSpace r.output, error := trimSpace r.error })
  else .error (.message "action result is not final")

/-- `left(id, 9) = 'schedrun_'`. -/
def isScheduledRunID (id : String) : Bool := id.toList.take 9 = "schedrun_".toList

/-- A child that the occurrence started and that never reported a result. -/
def IsInterruptedChild (p : ExecutionJob) (r : ActionRow) : Prop :=
  r.params.bind (Params.field · "schedule_job_id") = some p.jobID ∧
    r.params.bind (Params.field · "schedule_id") = some p.scheduleID ∧ r.status = .running ∧
    isScheduledRunID r.id = true ∧ r.actorID = p.actorID ∧ r.command = some p.command ∧
    r.type = .command
  deriving Decidable

def closeInterruptedScheduleChildren : Owner → DB
  | .schedule p =>
    updateActionRuns db (fun r => IsInterruptedChild p r) fun r =>
      { r with status := .failed, error := interruptedJobOutcome }
  | _ => db

def writeScheduleResult (p : ExecutionJob) (r : ScheduleExecutionResult) : Except Err DB :=
  if r.status.finalScheduleStatus then do
    let db' := closeInterruptedScheduleChildren db (.schedule p)
    let text ← truncateScheduledTaskError r.error
    .ok (updateSchedules db' (fun t => t.id = p.scheduleID) fun t =>
      { t with lastRunStatus := r.status, lastError := text })
  else .error (.message "schedule result is not final")

def writeResult (o : Owner) (result : JobExecutionResult) : Except Err DB :=
  if result.count ≠ 1 then
    .error (.message "execution result must identify exactly one business record")
  else
    match o with
    | .terminal p =>
      match result.terminal with
      | none => .error (.message "execution result kind mismatch")
      | some r =>
        if r.jobID ≠ p.jobID ∨ r.sessionID ≠ p.sessionID ∨ r.commandID ≠ p.commandID then
          .error (.message "terminal result identity mismatch")
        else if r.status.finalJobStatus then
          .ok (updateCommands db (fun c => c.id = p.commandID) fun c =>
            { c with status := r.status, output := r.output, exitCode := r.exitCode })
        else .error (.message "terminal result is not final")
    | .action p =>
      match result.action with
      | none => .error (.message "execution result kind mismatch")
      | some r =>
        if r.jobID ≠ p.jobID ∨ r.runID ≠ p.runID then
          .error (.message "action result identity mismatch")
        else writeActionJobResult db r
    | .update p =>
      match result.update with
      | none => .error (.message "execution result kind mismatch")
      | some r =>
        if r.jobID ≠ p.jobID ∨ r.runID ≠ p.runID then
          .error (.message "update result identity mismatch")
        else if r.status.finalJobStatus then
          .ok (updateUpdateRuns db (fun u => u.id = p.runID) fun u =>
            { u with status := r.status, summary := r.summary, error := r.error })
        else .error (.message "update result is not final")
    | .schedule p =>
      match result.schedule with
      | none => .error (.message "execution result kind mismatch")
      | some r => writeScheduleResult db p r

end LabTether.BusinessRecords
