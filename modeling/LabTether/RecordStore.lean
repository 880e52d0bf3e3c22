import LabTether.JobExecution

/-!
The other writers of the business tables: the API creates, fails and deletes terminal commands,
action runs and update runs, and the schedule store creates, edits, claims, invalidates and
deletes schedules. A claim queues the occurrence's job in the same transaction.
-/
namespace LabTether.RecordStore

open Table Transaction GoStrings JobQueue BusinessRecords Change

variable (db : DB) (id : String) (sessionID : String)

def addCommand (actorID target command mode : String) :
    Except Err (String × DB) :=
  match insertRow CommandRow.id
      ⟨id, sessionID, actorID, target, command, mode, .queued, "", none⟩ db.commands with
  | none => .error .database
  | some commands => .ok (id, { db with commands := commands })

def updateCommandResult (commandID : String) (status : RunStatus) (output : String)
    (exitCode : Option ℤ) : Except Err (Unit × DB) :=
  if ∃ r ∈ db.commands, r.sessionID = sessionID ∧ r.id = commandID then
    .ok ((), updateCommands db (fun r => r.sessionID = sessionID ∧ r.id = commandID) fun r =>
      { r with status := status, output := output, exitCode := exitCode })
  else .error .notFound

def deleteCommand (commandID : String) : DB :=
  { db with commands := deleteWhere (fun r => r.id = commandID) db.commands }

def deleteTerminalSession : DB :=
  { db with commands := deleteWhere (fun r => r.sessionID = sessionID) db.commands }

def nullIfBlank (value : String) : Option String :=
  if trimSpace value = "" then none else some (trimSpace value)

/-- `actions.ExecuteRequest`; `type` is the normalised run type, if one was given. -/
structure ExecuteRequest where
  type : Option RunType
  (actorID target command connectorID actionID : String)
  params : Params
  dryRun : Bool

variable (req : ExecuteRequest)

def requestRunType : RunType :=
  match req.type with
  | some type => type
  | none =>
    if trimSpace req.connectorID ≠ "" ∨ trimSpace req.actionID ≠ "" then .connectorAction
    else .command

def requestActor (actorID : String) : String :=
  if trimSpace actorID = "" then "owner" else trimSpace actorID

def newActionRow : ActionRow where
  id := id
  type := requestRunType req
  actorID := requestActor req.actorID
  target := nullIfBlank (trimSpace req.target)
  command := nullIfBlank (trimSpace req.command)
  connectorID := nullIfBlank (trimSpace req.connectorID)
  actionID := nullIfBlank (trimSpace req.actionID)
  params := some req.params
  dryRun := req.dryRun
  status := .queued
  output := ""
  error := ""

def createActionRun : Except Err (String × DB) :=
  match insertRow ActionRow.id (newActionRow id req) db.actionRuns with
  | none => .error .database
  | some actionRuns => .ok (id, { db with actionRuns := actionRuns })

/-- `ApplyActionResult`, without the action's steps. -/
def applyActionResult (result : ActionResult) : Except Err (Unit × DB) :=
  if ∃ a ∈ db.actionRuns, a.id = result.runID then
    .ok ((), updateActionRuns db (fun a => a.id = result.runID) fun a =>
      { a with status := (if result.status = .unset then .failed else result.status),
               output := trimSpace result.output, error := trimSpace result.error })
  else .error (.message "action run not found")

def deleteActionRun : DB :=
  { db with actionRuns := deleteWhere (fun a => a.id = trimSpace id) db.actionRuns }

/-- `CreateUpdateRun`, for the plan's id and name. -/
def createUpdateRun (planID planName actorID : String) (dryRun : Bool) :
    Except Err (String × DB) :=
  match insertRow UpdateRow.id
      ⟨id, planID, planName, requestActor actorID, dryRun, .queued, "", ""⟩ db.updateRuns with
  | none => .error .database
  | some updateRuns => .ok (id, { db with updateRuns := updateRuns })

def applyUpdateResult (result : UpdateResult) : Except Err (Unit × DB) :=
  if ∃ u ∈ db.updateRuns, u.id = result.runID then
    .ok ((), updateUpdateRuns db (fun u => u.id = result.runID) fun u =>
      { u with status := (if result.status = .unset then .failed else result.status),
               summary := trimSpace result.summary, error := trimSpace result.error })
  else .error (.message "update run not found")

def deleteUpdateRun : DB :=
  { db with updateRuns := deleteWhere (fun u => u.id = trimSpace id) db.updateRuns }

def maxScheduledTasksGlobal : ℕ := 4096

def maxScheduledTasksPerPrincipal : ℕ := 512

structure NewSchedule where
  (name cronExpr command : String)
  targets : List String
  groupID : String
  enabled : Bool
  createdBy : String
  createdAt : ℕ
  nextRunAt : Option ℕ

def nilIfEmpty (value : String) : Option String := if value = "" then none else some value

def newScheduleRow (task : NewSchedule) : ScheduleRow where
  id := id
  name := task.name
  cronExpr := task.cronExpr
  command := task.command
  targets := task.targets
  groupID := nilIfEmpty task.groupID
  enabled := task.enabled
  createdBy := task.createdBy
  createdAt := task.createdAt
  lastRunAt := none
  nextRunAt := task.nextRunAt
  lastRunStatus := .unset
  lastError := ""
  lastRunJobID := none

def createScheduledTask (task : NewSchedule) : Except Err (String × DB) :=
  if maxScheduledTasksGlobal ≤ db.schedules.length ∨
      maxScheduledTasksPerPrincipal ≤ (db.schedules.filter (·.createdBy = task.createdBy)).length then
    .error (.message "scheduled task capacity exceeded")
  else
    match insertRow ScheduleRow.id (newScheduleRow id task) db.schedules with
    | none => .error .database
    | some schedules => .ok (id, { db with schedules := schedules })

/-- The arguments of `UpdateScheduledTask`; `none` leaves a column alone, and
`nextRunAt := some none` sets it to NULL. -/
structure ScheduleEdit where
  (name cronExpr command : Option String)
  targets : Option (List String)
  groupID : Option String
  enabled : Option Bool
  nextRunAt : Option (Option ℕ)
  editedBy : String

variable (e : ScheduleEdit)

def ScheduleEdit.isEmpty : Bool :=
  e.name.isNone && e.cronExpr.isNone && e.command.isNone && e.targets.isNone &&
    e.groupID.isNone && e.enabled.isNone && e.nextRunAt.isNone

/-- The edit changes what the schedule runs, or resumes it. -/
def ScheduleEdit.clearsError : Bool :=
  e.cronExpr.isSome || e.command.isSome || e.targets.isSome || e.groupID.isSome ||
    e.enabled = some true

/-- The SET list. Pausing cancels only an occurrence that has not finished. -/
def applyEdit (t : ScheduleRow) : ScheduleRow :=
  let cancels := e.enabled = some false ∧ t.lastRunStatus.isActive = true
  { t with
    name := e.name.getD t.name
    cronExpr := e.cronExpr.getD t.cronExpr
    command := e.command.getD t.command
    targets := e.targets.getD t.targets
    groupID := (e.groupID.map nilIfEmpty).getD t.groupID
    enabled := e.enabled.getD t.enabled
    lastRunStatus := if cancels then .cancelled else t.lastRunStatus
    lastRunJobID := if cancels then none else t.lastRunJobID
    nextRunAt := e.nextRunAt.getD t.nextRunAt
    lastError := if e.clearsError ∨ cancels then "" else t.lastError
    createdBy := if trimSpace e.editedBy = "" then t.createdBy else trimSpace e.editedBy }

def updateScheduledTask : Except Err (Unit × DB) :=
  if e.isEmpty then .ok ((), db)
  else if ∃ t ∈ db.schedules, t.id = id then
    .ok ((), updateSchedules db (fun t => t.id = id) (applyEdit e))
  else .error .notFound

def initializeScheduledTaskNextRun (nextRunAt : ℕ) : DB :=
  updateSchedules db (fun t => t.id = trimSpace id ∧ t.enabled = true ∧ t.nextRunAt = none) fun t =>
    { t with nextRunAt := some nextRunAt, lastError := "" }

/-- `schedules.ExecutionClaim`, with the marshalled text of its job. -/
structure ExecutionClaim where
  scheduleID : String
  (dueAt claimedAt nextRunAt : ℕ)
  maxAttempts : ℤ
  job : ExecutionJob
  jobText : String

/-- The bounds that `ClaimScheduledTaskExecution` puts on the attempts. -/
def claimMaxAttempts (configured : ℤ) : ℕ :=
  if configured < 1 then 1 else if configured > 100 then 100 else configured.toNat

variable (claim : ExecutionClaim)

/-- The schedule is due and its last occurrence is finished. -/
def IsClaimable (t : ScheduleRow) : Prop :=
  t.id = claim.scheduleID ∧ t.enabled = true ∧ t.nextRunAt = some claim.dueAt ∧
    t.lastRunStatus.isActive = false
  deriving Decidable

def claimOccurrence (t : ScheduleRow) : ScheduleRow :=
  { t with
    lastRunAt := some claim.claimedAt
    nextRunAt := some claim.nextRunAt
    lastRunStatus := .queued
    lastError := ""
    lastRunJobID := some claim.job.jobID }

def occurrencePayload : Payload :=
  ⟨claim.jobText, none, none, none, some claim.job⟩

def occurrenceRow : JobRow :=
  newRow claim.job.jobID .scheduleRun (occurrencePayload claim) (claimMaxAttempts claim.maxAttempts)
    claim.claimedAt

def claimScheduledTaskExecution : Except Err (Bool × DB) :=
  if trimSpace claim.scheduleID = "" ∨ trimSpace claim.job.jobID = "" then
    .error (.message "schedule execution claim is incomplete")
  else if claim.dueAt = 0 ∨ claim.claimedAt = 0 ∨ claim.nextRunAt = 0 ∨
      claim.nextRunAt ≤ claim.claimedAt then
    .error (.message "schedule execution claim has invalid timestamps")
  else if ∃ t ∈ db.schedules, IsClaimable claim t then
    match insertRow JobRow.id (occurrenceRow claim) db.queue with
    | none => .error .database
    | some queue =>
      .ok (true, { updateSchedules db (fun t => IsClaimable claim t) (claimOccurrence claim) with
        queue := queue })
  else .ok (false, db)

def markScheduledTaskInvalid (errorMessage : String) : Except Err (Unit × DB) := do
  let text ← truncateScheduledTaskError errorMessage
  .ok ((), updateSchedules db (fun t => t.id = trimSpace id) fun t =>
    { t with enabled := false, nextRunAt := none, lastRunStatus := .invalid, lastError := text })

def deleteScheduledTask : DB :=
  { db with schedules := deleteWhere (fun t => t.id = id) db.schedules }

section

/-- The business tables move and the queue stays. -/
abbrev Apart (issued issued' : List String) (taken : String → Prop) (db db' : DB) : Prop :=
  Effect issued issued' taken db db' ∧ db'.queue = db.queue

variable {issued issued' : List String} {taken : String → Prop} {db db' : DB} {id x : String}

theorem addCommand_effect {sessionID actorID target command mode : String}
    (hid : id ∉ issued) (hid' : id ∈ issued')
    (h : addCommand db id sessionID actorID target command mode = .ok (x, db')) :
    Apart issued issued' taken db db' := by
  unfold addCommand at h
  split at h
  · cases h
  next commands hins =>
    cases h
    exact ⟨⟨.single (.insertRow ⟨rfl, hid, hid'⟩ hins), .refl, .refl, .refl⟩, rfl⟩

theorem createActionRun_effect {req : ExecuteRequest} (hid : id ∉ issued)
    (hid' : id ∈ issued') (hrun : isScheduledRunID id = false)
    (h : createActionRun db id req = .ok (x, db')) : Apart issued issued' taken db db' := by
  unfold createActionRun at h
  split at h
  · cases h
  next actionRuns hins =>
    cases h
    exact ⟨⟨.refl, .single (.insertRow (.inl ⟨rfl, hid, hid', hrun⟩) hins), .refl, .refl⟩, rfl⟩

theorem createUpdateRun_effect {planID planName actorID : String} {dryRun : Bool}
    (hid : id ∉ issued) (hid' : id ∈ issued')
    (h : createUpdateRun db id planID planName actorID dryRun = .ok (x, db')) :
    Apart issued issued' taken db db' := by
  unfold createUpdateRun at h
  split at h
  · cases h
  next updateRuns hins =>
    cases h
    exact ⟨⟨.refl, .refl, .single (.insertRow ⟨rfl, hid, hid'⟩ hins), .refl⟩, rfl⟩

theorem updateCommandResult_effect {sessionID commandID output : String} {status : RunStatus}
    {exitCode : Option ℤ} (hst : status.isActive = false)
    (h : updateCommandResult db sessionID commandID status output exitCode = .ok ((), db')) :
    Apart issued issued' taken db db' := by
  unfold updateCommandResult at h
  split at h
  · cases h
    exact ⟨updateCommands_effect fun r _ _ => .mk r status output exitCode (.inr hst), rfl⟩
  · cases h

theorem applied_inactive {st : RunStatus} (h : st.isActive = false) :
    (if st = .unset then .failed else st : RunStatus).isActive = false := by
  split
  · rfl
  · exact h

theorem applyActionResult_effect {result : ActionResult} (hst : result.status.isActive = false)
    (h : applyActionResult db result = .ok ((), db')) : Apart issued issued' taken db db' := by
  unfold applyActionResult at h
  split at h
  · cases h
    exact ⟨updateActionRuns_effect fun a _ _ => .mk a _ _ _ (.inr (applied_inactive hst)), rfl⟩
  · cases h

theorem applyUpdateResult_effect {result : UpdateResult} (hst : result.status.isActive = false)
    (h : applyUpdateResult db result = .ok ((), db')) : Apart issued issued' taken db db' := by
  unfold applyUpdateResult at h
  split at h
  · cases h
    exact ⟨updateUpdateRuns_effect fun u _ _ => .mk u _ _ _ (.inr (applied_inactive hst)), rfl⟩
  · cases h

theorem deleteCommand_effect (db : DB) (id : String) :
    Effect issued issued' taken db (deleteCommand db id) :=
  ⟨(deleteWhere fun _ _ _ => trivial).changes, .refl, .refl, .refl⟩

theorem deleteTerminalSession_effect (db : DB) (id : String) :
    Effect issued issued' taken db (deleteTerminalSession db id) :=
  ⟨(deleteWhere fun _ _ _ => trivial).changes, .refl, .refl, .refl⟩

theorem deleteActionRun_effect (db : DB) (id : String) :
    Effect issued issued' taken db (deleteActionRun db id) :=
  ⟨.refl, (deleteWhere fun _ _ _ => trivial).changes, .refl, .refl⟩

theorem deleteUpdateRun_effect (db : DB) (id : String) :
    Effect issued issued' taken db (deleteUpdateRun db id) :=
  ⟨.refl, .refl, (deleteWhere fun _ _ _ => trivial).changes, .refl⟩

theorem deleteScheduledTask_effect (db : DB) (id : String) :
    Effect issued issued' taken db (deleteScheduledTask db id) :=
  ⟨.refl, .refl, .refl, (deleteWhere fun _ _ _ => trivial).changes⟩

theorem createScheduledTask_effect {task : NewSchedule}
    (h : createScheduledTask db id task = .ok (x, db')) : Apart issued issued' taken db db' := by
  revert h
  fun_cases createScheduledTask db id task
  all_goals rintro ⟨⟩
  rename_i hins
  exact ⟨⟨.refl, .refl, .refl, .single (.insertRow rfl hins)⟩, rfl⟩

theorem applyEdit_move (e : ScheduleEdit) (t : ScheduleRow) : ScheduleMove taken t (applyEdit e t) := by
  by_cases hc : e.enabled = some false ∧ t.lastRunStatus.isActive = true
  · refine .release t _ rfl ?_ ?_
    · simp [applyEdit, if_pos hc]
    · simp only [applyEdit, if_pos hc]
      rfl
  · refine .edit t _ rfl ?_ ?_
    all_goals simp [applyEdit, if_neg hc]

theorem updateScheduledTask_effect {e : ScheduleEdit}
    (h : updateScheduledTask db id e = .ok ((), db')) : Apart issued issued' taken db db' := by
  revert h
  fun_cases updateScheduledTask db id e
  all_goals rintro ⟨⟩
  · exact ⟨Effect.refl db, rfl⟩
  · exact ⟨updateSchedules_effect fun t _ _ => applyEdit_move e t, rfl⟩

theorem initializeScheduledTaskNextRun_effect (db : DB) (id : String) (nextRunAt : ℕ) :
    Effect issued issued' taken db (initializeScheduledTaskNextRun db id nextRunAt) :=
  updateSchedules_effect fun t _ _ => .edit t _ rfl rfl rfl

theorem markScheduledTaskInvalid_effect {errorMessage : String}
    (h : markScheduledTaskInvalid db id errorMessage = .ok ((), db')) :
    Apart issued issued' taken db db' := by
  obtain ⟨text, -, h⟩ := bind_eq_ok.1 h
  cases h
  exact ⟨updateSchedules_effect fun t _ _ => .advance t _ rfl rfl (.inr rfl), rfl⟩

theorem one_le_claimMaxAttempts (configured : ℤ) : 1 ≤ claimMaxAttempts configured := by
  unfold claimMaxAttempts
  split
  · omega
  · split <;> omega

variable {claim : ExecutionClaim} {claimed : Bool}

/-- A claim either changed nothing, or queued a new job and pointed the schedule at it. -/
theorem claimScheduledTaskExecution_ok
    (h : claimScheduledTaskExecution db claim = .ok (claimed, db')) : (claimed = false ∧ db' = db) ∨
      (claimed = true ∧ (∃ t ∈ db.schedules, IsClaimable claim t) ∧
        ∃ queue, insertRow JobRow.id (occurrenceRow claim) db.queue = some queue ∧
          db' = { updateSchedules db (fun t => IsClaimable claim t) (claimOccurrence claim) with
            queue := queue }) := by
  revert h
  fun_cases claimScheduledTaskExecution db claim
  all_goals rintro ⟨⟩
  case case4 hex queue hins => exact .inr ⟨rfl, hex, queue, hins, rfl⟩
  · exact .inl ⟨rfl, rfl⟩

theorem claimScheduledTaskExecution_effect {New Gone : JobRow → Prop}
    (htaken : ∀ j, taken j → j ∈ db.queue.map JobRow.id) (hnew : New (occurrenceRow claim))
    (h : claimScheduledTaskExecution db claim = .ok (claimed, db')) :
    Effect issued issued' taken db db' ∧
      Change JobRow.id (Move issued issued') New Gone db.queue db'.queue := by
  rcases claimScheduledTaskExecution_ok h with ⟨-, rfl⟩ | ⟨-, -, queue, hins, rfl⟩
  · exact ⟨Effect.refl db', refl _⟩
  have hfresh := (insertRow_eq_some.1 hins).1
  refine ⟨⟨.refl, .refl, .refl, ?_⟩, ?_⟩
  · refine (updateWhere fun t _ _ => ?_).changes
    exact .claim t _ claim.job.jobID rfl rfl rfl fun hj => hfresh (htaken _ hj)
  · exact insertRow hnew hins

end

end LabTether.RecordStore
