import LabTether.BusinessMoves

/-!
The job-execution transactions: `BeginJobExecution`, `FinishJobExecution`,
`FinalizeDeadJobInTransaction`, `StartScheduledAction` and `FinishScheduledAction`.
Each locks the queue row by its claim, then the business record, and commits both
together. A transaction here is the state it would commit; what becomes of the commit
is decided by its caller (`Transaction.commit`).
-/
namespace LabTether.JobExecution

open Table Transaction JobQueue BusinessRecords Effect

/-- The row a claim may act on: same id, kind and payload, and either the claim's token
or, for a finalizer, a row that was just dead-lettered. -/
def ClaimMatches (job : Job) (dead : Bool) (r : JobRow) : Prop :=
  r.id = job.id ∧ r.status = (if dead then .deadLettered else .processing) ∧
    (dead = true ∨ r.lockToken = some job.lockToken) ∧ r.kind = job.kind ∧ r.payload = job.payload
  deriving Decidable

variable (db : DB)

def lockJobClaim (job : Job) (dead : Bool) : Except Err Unit :=
  if job.id = "" ∨ (dead = false ∧ job.lockToken = "") then .error .claimLost
  else if ∃ r ∈ db.queue, ClaimMatches job dead r then .ok ()
  else .error .claimLost

def completeLockedJob (jobID : String) (now : ℕ) : DB :=
  { db with queue := updateWhere (fun r => r.id = jobID) (completeRow now) db.queue }

def skippedResult : JobExecutionResult :=
  scheduleResult .skipped "schedule disabled before dispatch"

/-- What `BeginJobExecution` writes for a record that it does not dispatch. -/
def closeUndispatched (b : JobBusiness) : Except Err DB :=
  if b.status = .superseded then .ok (closeInterruptedScheduleChildren db b.owner)
  else if b.status = .running then writeResult db b.owner (interruptedResult b.owner)
  else if b.status = .disabled then writeResult db b.owner skippedResult
  else .ok db

/-- `BeginJobExecution`; the answer is whether the work may be dispatched. -/
def beginJobExecution (job : Job) (now : ℕ) : Except Err (Bool × DB) := do
  lockJobClaim db job false
  let b ← lockJobBusiness db job
  if b.status = .queued then
    .ok (true, markRunning db b.owner)
  else
    let db' ← closeUndispatched db b
    .ok (false, completeLockedJob db' job.id now)

/-- What `FinishJobExecution` writes for the record: a removed or replaced occurrence does
not overwrite its successor. -/
def writeFinished (b : JobBusiness) (result : JobExecutionResult) : Except Err DB :=
  if b.status = .superseded then .ok (closeInterruptedScheduleChildren db b.owner)
  else if b.status = .running then writeResult db b.owner result
  else .error (.message ("job business record is not running: " ++ b.status.text))

def finishJobExecution (job : Job) (result : JobExecutionResult) (now : ℕ) :
    Except Err (Unit × DB) := do
  lockJobClaim db job false
  let b ← lockJobBusiness db job
  let db' ← writeFinished db b result
  .ok ((), completeLockedJob db' job.id now)

/-- `FinalizeDeadJobInTransaction`: closes the record of a job that was just
dead-lettered, in the same transaction. -/
def finalizeDeadJobInTransaction (job : Job) : Except Err DB := do
  lockJobClaim db job true
  match lockJobBusiness db job with
  | .error .businessIdentity => .ok db
  | .error e => .error e
  | .ok b =>
    if b.status = .superseded then .ok (closeInterruptedScheduleChildren db b.owner)
    else if b.status = .disabled then writeResult db b.owner skippedResult
    else if b.status = .running then writeResult db b.owner (interruptedResult b.owner)
    else if b.status = .queued then
      writeResult db b.owner
        (failedResult "queue retries exhausted before dispatch; work was not executed" b.owner)
    else .ok db

def scheduledActionRunID (jobID target : String) : String :=
  "schedrun_" ++ Sha256.hexDigest (jobID ++ "\x00" ++ target)

/-- The child's parameters, in the key order of jsonb. -/
def childParams (p : ExecutionJob) (actionJobID : String) : Params :=
  [("schedule_id", p.scheduleID), ("scheduled_for", p.scheduledFor),
    ("schedule_job_id", p.jobID), ("schedule_action_job_id", actionJobID)]

def childJob (p : ExecutionJob) (target actionJobID : String) (requestedAt : ℕ) : ActionJob where
  jobID := actionJobID
  runID := scheduledActionRunID p.jobID target
  type := .command
  actorID := p.actorID
  target := target
  command := p.command
  connectorID := ""
  actionID := ""
  params := childParams p actionJobID
  dryRun := false
  timeoutSec := 30
  requestedAt := requestedAt

/-- The row that `StartScheduledAction` inserts. -/
def childRow (job : ActionJob) : ActionRow where
  id := job.runID
  type := job.type
  actorID := job.actorID
  target := some job.target
  command := some job.command
  connectorID := none
  actionID := none
  params := some job.params
  dryRun := false
  status := .running
  output := ""
  error := ""

/-- `StartScheduledAction`: the child's record is written before the child is sent. -/
def startScheduledAction (claim : Job) (target actionJobID : String) (requestedAt : ℕ) :
    Except Err (ActionJob × DB) := do
  lockJobClaim db claim false
  let b ← lockJobBusiness db claim
  match b.owner with
  | .schedule p =>
    if b.status ≠ .running ∨ target = "" then .error (.message "schedule is not running")
    else
      let job := childJob p target actionJobID requestedAt
      match insertRow ActionRow.id (childRow job) db.actionRuns with
      | none => .error .database
      | some actionRuns => .ok (job, { db with actionRuns := actionRuns })
  | _ => .error (.message "schedule is not running")

/-- `child` and `result` are those of the occurrence `p`. -/
def ChildMatches (p : ExecutionJob) (child : ActionJob) (result : ActionResult) : Prop :=
  child.runID = scheduledActionRunID p.jobID child.target ∧ child.actorID = p.actorID ∧
    child.command = p.command ∧ child.type = .command ∧ child.dryRun = false ∧
    child.params.get "schedule_id" = p.scheduleID ∧
    child.params.get "schedule_job_id" = p.jobID ∧
    child.params.get "scheduled_for" = p.scheduledFor ∧
    child.params.get "schedule_action_job_id" = child.jobID ∧
    result.jobID = child.jobID ∧ result.runID = child.runID

instance (p : ExecutionJob) (child : ActionJob) (result : ActionResult) :
    Decidable (ChildMatches p child result) :=
  inferInstanceAs (Decidable (_ ∧ _))

def finishScheduledAction (claim : Job) (child : ActionJob) (result : ActionResult) :
    Except Err (Unit × DB) := do
  lockJobClaim db claim false
  let b ← lockJobBusiness db claim
  match b.owner with
  | .schedule p =>
    if b.status ≠ .running ∧ b.status ≠ .superseded then
      .error (.message "schedule is not running")
    else if ChildMatches p child result then
      match lockActionJob db child with
      | none => .error .notFound
      | some state =>
        if state = .running then do
          let db' ← writeActionJobResult db result
          .ok ((), db')
        else .error (.message "scheduled child is not running")
    else .error (.message "scheduled child identity mismatch")
  | _ => .error (.message "schedule is not running")

section

variable {db : DB} {job : Job} {dead : Bool}

theorem lockJobClaim_ok {u : Unit} (h : lockJobClaim db job dead = .ok u) :
    ∃ r ∈ db.queue, ClaimMatches job dead r := by
  revert h
  fun_cases lockJobClaim db job dead
  all_goals rintro ⟨⟩
  assumption

theorem lockJobClaim_lost (h : ∀ r ∈ db.queue, ¬ ClaimMatches job dead r) :
    lockJobClaim db job dead = .error .claimLost := by
  unfold lockJobClaim
  split
  · rfl
  · rw [if_neg]
    rintro ⟨r, hr, hm⟩
    exact h r hr hm

theorem ClaimMatches.holdsClaim {r : JobRow} (h : ClaimMatches job false r) :
    HoldsClaim job.id job.lockToken r := by
  obtain ⟨hid, hst, htok, -⟩ := h
  exact ⟨hid, by simpa using hst, by simpa using htok⟩

end

section

/-- How a transaction leaves the record of a job that it takes off the queue. -/
inductive Close (db : DB) (b : JobBusiness) : DB → Prop
  | superseded (h : b.status = .superseded) :
      Close db b (closeInterruptedScheduleChildren db b.owner)
  | result (db' : DB) (hst : b.status = .queued ∨ b.status = .running ∨ b.status = .disabled)
      (h : ResultWrite db b.owner db') : Close db b db'
  | kept (h : b.status.isActive = false) (hd : b.status ≠ .disabled) : Close db b db

variable {issued issued' : List String} {taken : String → Prop} {db db' : DB} {b : JobBusiness}

theorem Close.effect (h : Close db b db') : Effect issued issued' taken db db' := by
  cases h with
  | superseded hst => exact closeInterruptedScheduleChildren_effect db b.owner
  | result db' hst hw => exact hw.effect
  | kept ha hd => exact refl db

theorem Close.queue_eq (h : Close db b db') : db'.queue = db.queue := by
  cases h with
  | superseded hst => exact closeInterruptedScheduleChildren_queue db b.owner
  | result db' hst hw => exact hw.queue_eq
  | kept ha hd => rfl

theorem namedStatus_closeInterrupted {o : Owner} {st : RunStatus} :
    NamedStatus (closeInterruptedScheduleChildren db o) o st ↔ NamedStatus db o st := by
  cases o <;> rfl

/-- Whichever way it is closed, the record is finished afterwards. -/
theorem Close.settled (h : Close db b db') (hk : TablesKeyed db)
    (hst : ownerStatus db b.owner = some b.status) : Settled db' b.owner := by
  cases h with
  | superseded hs =>
    have hset : Settled db b.owner :=
      settled_of_ownerStatus hk hst (by rw [hs]; rfl) (by rw [hs]; decide)
    exact fun st hn => hset st (namedStatus_closeInterrupted.1 hn)
  | result db' hs hw => exact hw.settled
  | kept ha hd => exact settled_of_ownerStatus hk hst ha hd

end

section

variable {db db' : DB} {job : Job} {now : ℕ}

theorem beginJobExecution_ok {dispatch : Bool}
    (h : beginJobExecution db job now = .ok (dispatch, db')) :
    ∃ r b, r ∈ db.queue ∧ ClaimMatches job false r ∧ lockJobBusiness db job = .ok b ∧
      ((dispatch = true ∧ b.status = .queued ∧ db' = markRunning db b.owner) ∨
        (dispatch = false ∧ b.status ≠ .queued ∧
          ∃ mid, Close db b mid ∧ db' = completeLockedJob mid job.id now)) := by
  obtain ⟨u, hlock, h⟩ := bind_eq_ok.1 h
  obtain ⟨b, hb, h⟩ := bind_eq_ok.1 h
  obtain ⟨r, hr, hm⟩ := lockJobClaim_ok hlock
  refine ⟨r, b, hr, hm, hb, ?_⟩
  split_ifs at h with hq
  · cases h
    exact .inl ⟨rfl, hq, rfl⟩
  obtain ⟨mid, hmid, h⟩ := bind_eq_ok.1 h
  cases h
  refine .inr ⟨rfl, hq, mid, ?_, rfl⟩
  unfold closeUndispatched at hmid
  split_ifs at hmid with hs hrun hd
  · cases hmid
    exact .superseded hs
  · exact .result mid (.inr (.inl hrun)) (writeResult_ok hmid)
  · exact .result mid (.inr (.inr hd)) (writeResult_ok hmid)
  · cases hmid
    refine .kept ?_ hd
    cases hst : b.status <;> simp_all [RunStatus.isActive]

theorem Close.of_finished {b : JobBusiness} {mid : DB}
    (h : (b.status = .superseded ∧ mid = closeInterruptedScheduleChildren db b.owner) ∨
      (b.status = .running ∧ ResultWrite db b.owner mid)) : Close db b mid := by
  rcases h with ⟨hs, rfl⟩ | ⟨hs, hw⟩
  · exact .superseded hs
  · exact .result mid (.inr (.inl hs)) hw

theorem finishJobExecution_ok {result : JobExecutionResult}
    (h : finishJobExecution db job result now = .ok ((), db')) :
    ∃ r b mid, r ∈ db.queue ∧ ClaimMatches job false r ∧ lockJobBusiness db job = .ok b ∧
      ((b.status = .superseded ∧ mid = closeInterruptedScheduleChildren db b.owner) ∨
        (b.status = .running ∧ ResultWrite db b.owner mid)) ∧
      db' = completeLockedJob mid job.id now := by
  obtain ⟨u, hlock, h⟩ := bind_eq_ok.1 h
  obtain ⟨b, hb, h⟩ := bind_eq_ok.1 h
  obtain ⟨mid, hmid, h⟩ := bind_eq_ok.1 h
  obtain ⟨r, hr, hm⟩ := lockJobClaim_ok hlock
  cases h
  refine ⟨r, b, mid, hr, hm, hb, ?_, rfl⟩
  unfold writeFinished at hmid
  split at hmid
  next hs =>
    cases hmid
    exact .inl ⟨hs, rfl⟩
  · split at hmid
    next hs => exact .inr ⟨hs, writeResult_ok hmid⟩
    · cases hmid

theorem finalizeDeadJobInTransaction_ok (h : finalizeDeadJobInTransaction db job = .ok db') :
    ((∀ o, ownerOf job.id job.kind job.payload = some o → ownerStatus db o = none) ∧ db' = db) ∨
      ∃ b, lockJobBusiness db job = .ok b ∧ Close db b db' := by
  obtain ⟨u, -, h⟩ := bind_eq_ok.1 h
  split at h
  next he =>
    cases h
    exact .inl ⟨(lockJobBusiness_error he).2, rfl⟩
  · cases h
  next b hb =>
    refine .inr ⟨b, hb, ?_⟩
    split_ifs at h with hs hd hr hq
    · cases h
      exact .superseded hs
    · exact .result db' (.inr (.inr hd)) (writeResult_ok h)
    · exact .result db' (.inr (.inl hr)) (writeResult_ok h)
    · exact .result db' (.inl hq) (writeResult_ok h)
    · cases h
      refine .kept ?_ hd
      cases hst : b.status <;> simp_all [RunStatus.isActive]

variable {child : ActionJob}

theorem startScheduledAction_ok {target actionJobID : String} {requestedAt : ℕ}
    (h : startScheduledAction db job target actionJobID requestedAt = .ok (child, db')) :
    ∃ r p, r ∈ db.queue ∧ ClaimMatches job false r ∧
      lockJobBusiness db job = .ok ⟨.running, .schedule p⟩ ∧
      child = childJob p target actionJobID requestedAt ∧
      ∃ actionRuns, insertRow ActionRow.id (childRow child) db.actionRuns = some actionRuns ∧
        db' = { db with actionRuns := actionRuns } := by
  obtain ⟨u, hlock, h⟩ := bind_eq_ok.1 h
  obtain ⟨⟨st, o⟩, hb, h⟩ := bind_eq_ok.1 h
  obtain ⟨r, hr, hm⟩ := lockJobClaim_ok hlock
  cases o with
  | schedule p =>
    simp only at h
    split at h
    · cases h
    next hcond =>
      rw [not_or, not_not] at hcond
      split at h
      · cases h
      next actionRuns hins =>
        cases h
        refine ⟨r, p, hr, hm, ?_, rfl, actionRuns, hins, rfl⟩
        rw [hb, hcond.1]
  | terminal p | action p | update p => cases h

theorem finishScheduledAction_ok {result : ActionResult}
    (h : finishScheduledAction db job child result = .ok ((), db')) :
    writeActionJobResult db result = .ok db' := by
  obtain ⟨u, -, h⟩ := bind_eq_ok.1 h
  obtain ⟨⟨st, o⟩, -, h⟩ := bind_eq_ok.1 h
  cases o with
  | schedule p =>
    simp only at h
    repeat' split at h
    any_goals cases h
    obtain ⟨mid, hmid, h⟩ := bind_eq_ok.1 h
    cases h
    exact hmid
  | terminal p | action p | update p => cases h

variable {issued issued' : List String} {taken : String → Prop} {mid : DB} {New Gone : JobRow → Prop}

theorem completeLockedJob_change (hk : Keyed JobRow.id db.queue) {r : JobRow} (hr : r ∈ db.queue)
    (hm : ClaimMatches job false r) (hq : mid.queue = db.queue) :
    Change JobRow.id (Move issued issued') New Gone db.queue
      (completeLockedJob mid job.id now).queue := by
  unfold completeLockedJob
  rw [hq]
  refine Change.updateWhere fun x hx hid => ?_
  have hxr : x = r := hk.eq hx hr ((of_decide_eq_true hid).trans hm.1.symm)
  exact .complete x now (hxr ▸ hm.holdsClaim.2.1)

theorem completeLockedJob_effect (h : Effect issued issued' taken db mid) :
    Effect issued issued' taken db (completeLockedJob mid job.id now) :=
  h.trans (of_eq rfl rfl rfl rfl)

theorem markRunning_queue (db : DB) (o : Owner) : (markRunning db o).queue = db.queue := by
  cases o <;> rfl

theorem beginJobExecution_effect (hk : Keyed JobRow.id db.queue) (ht : TablesKeyed db)
    {dispatch : Bool} (h : beginJobExecution db job now = .ok (dispatch, db')) :
    Change JobRow.id (Move issued issued') New Gone db.queue db'.queue ∧
      Effect issued issued' taken db db' := by
  obtain ⟨r, b, hr, hm, hb, hcase⟩ := beginJobExecution_ok h
  obtain ⟨howner, hstatus⟩ := lockJobBusiness_ok.1 hb
  rcases hcase with ⟨-, hq, rfl⟩ | ⟨-, -, mid, hclose, rfl⟩
  · refine ⟨?_, ?_⟩
    · rw [markRunning_queue]
      exact Change.refl _
    · refine markRunning_effect ht ?_
      rw [hq] at hstatus
      exact namedStatus_of_active (ownerOf_logicalID howner) hstatus rfl
  · exact ⟨completeLockedJob_change hk hr hm hclose.queue_eq,
      completeLockedJob_effect hclose.effect⟩

theorem finishJobExecution_effect (hk : Keyed JobRow.id db.queue) {result : JobExecutionResult}
    (h : finishJobExecution db job result now = .ok ((), db')) :
    Change JobRow.id (Move issued issued') New Gone db.queue db'.queue ∧
      Effect issued issued' taken db db' := by
  obtain ⟨r, b, mid, hr, hm, hb, hcase, rfl⟩ := finishJobExecution_ok h
  have hclose : Close db b mid := .of_finished hcase
  exact ⟨completeLockedJob_change hk hr hm hclose.queue_eq, completeLockedJob_effect hclose.effect⟩

theorem finalizeDeadJobInTransaction_effect (h : finalizeDeadJobInTransaction db job = .ok db') :
    Effect issued issued' taken db db' := by
  rcases finalizeDeadJobInTransaction_ok h with ⟨-, rfl⟩ | ⟨b, -, hclose⟩
  · exact refl db'
  · exact hclose.effect

theorem finalizeDeadJobInTransaction_queue (h : finalizeDeadJobInTransaction db job = .ok db') :
    db'.queue = db.queue := by
  rcases finalizeDeadJobInTransaction_ok h with ⟨-, rfl⟩ | ⟨b, -, hclose⟩
  · rfl
  · exact hclose.queue_eq

end

end LabTether.JobExecution
