import LabTether.RecordStore
import LabTether.Transition

/-!
The hub's job system as one transition system.
Any operation may be called at any time with any arguments: workers are not trusted
to call them in order, to hold the claim they use, or to survive a call. An id or lock
token that was generated before is not generated again; an operation that would need
one leaves the state alone. The log keeps the answers that authorise work to be sent.
-/
namespace LabTether.Hub

open Table Transaction JobQueue BusinessRecords JobExecution RecordStore List Effect

/-- What an answer can authorise work on. -/
inductive RecordKey
  | command (id : String)
  | action (id : String)
  | update (id : String)
  | occurrence (jobID : String)
deriving DecidableEq

def keyOf : Owner → RecordKey
  | .terminal p => .command p.commandID
  | .action p => .action p.runID
  | .update p => .update p.runID
  | .schedule p => .occurrence p.jobID

inductive Event
  /-- `BeginJobExecution` answered dispatch -/
  | dispatched (key : RecordKey)
  /-- `StartScheduledAction` handed out the child for a target -/
  | childStarted (jobID target : String)
deriving DecidableEq

structure State where
  db : DB
  issued : List String
  log : List Event

def State.init : State := ⟨DB.empty, [], []⟩

/-- The finalizer the hub installs; `faults` are the jobs whose finalizer statements fail. -/
def finalizer (faults : List String) : Finalizer := fun db job =>
  if job.id ∈ faults then .error .database else finalizeDeadJobInTransaction db job

inductive Op
  | enqueue (unique : String) (kind : JobKind) (payload : Payload) (configured : ℤ) (now : ℕ)
  | claim (unique : String) (now : ℕ) (locked : List String)
  | renewClaim (jobID token : String) (now : ℕ)
  | complete (jobID token : String) (now : ℕ)
  | fail (jobID token errMsg : String) (now : ℕ) (faults : List String) (ack : Ack)
  | recoverStaleClaims (now staleClaimAt : ℕ) (locked faults : List String) (ack : Ack)
  | purgeOldJobs (olderThan : ℕ)
  | beginJob (job : Job) (now : ℕ) (ack : Ack)
  | finishJob (job : Job) (result : JobExecutionResult) (now : ℕ) (ack : Ack)
  | startChild (claim : Job) (target unique : String) (now : ℕ) (ack : Ack)
  | finishChild (claim : Job) (child : ActionJob) (result : ActionResult) (ack : Ack)
  | addCommand (unique sessionID actorID target command mode : String)
  | failCommand (sessionID commandID output : String)
  | deleteCommand (id : String)
  | deleteTerminalSession (id : String)
  | createActionRun (unique : String) (req : ExecuteRequest)
  | applyActionResult (result : ActionResult)
  | deleteActionRun (id : String)
  | createUpdateRun (unique planID planName actorID : String) (dryRun : Bool)
  | applyUpdateResult (result : UpdateResult)
  | deleteUpdateRun (id : String)
  | createSchedule (unique : String) (task : NewSchedule)
  | updateSchedule (id : String) (e : ScheduleEdit)
  | initializeNextRun (id : String) (nextRunAt : ℕ)
  | claimSchedule (claim : ExecutionClaim)
  | markScheduleInvalid (id errorMessage : String)
  | deleteSchedule (id : String)

/-- Generate `id` and run the rest, unless `id` was generated before. -/
def withNew (s : State) (id : String) (f : State → State) : State :=
  if id ∈ s.issued then s else f { s with issued := id :: s.issued }

/-- The state after a transaction that answered, or failed and left no trace. -/
def applied {α : Type} (s : State) (r : Except Err (α × DB)) : State :=
  match r with
  | .error _ => s
  | .ok (_, db) => { s with db := db }

/-- The answer of `BeginJobExecution`, as far as it authorises work. -/
def dispatchEvents (job : Job) : Except Err Bool → List Event
  | .ok true =>
    match ownerOf job.id job.kind job.payload with
    | some o => [.dispatched (keyOf o)]
    | none => []
  | _ => []

def childEvents (claim : Job) (target : String) : Except Err ActionJob → List Event
  | .ok _ => [.childStarted claim.id target]
  | .error _ => []

def beginAnswer (s : State) (job : Job) (now : ℕ) (ack : Ack) : Except Err Bool × DB :=
  commit ack .database s.db (beginJobExecution s.db job now)

def startAnswer (s : State) (claim : Job) (target actionJobID : String) (now : ℕ) (ack : Ack) :
    Except Err ActionJob × DB :=
  commit ack .database s.db (startScheduledAction s.db claim target actionJobID now)

def step (s : State) : Op → State
  | .enqueue unique kind payload configured now =>
    let id := idgenNew "jq" unique
    withNew s id fun s => applied s (enqueue s.db id kind payload configured now)
  | .claim unique now locked =>
    let token := idgenNew "jqlock" unique
    withNew s token fun s => { s with db := (claim s.db token now locked).2 }
  | .renewClaim jobID token now => applied s (renewClaim s.db jobID token now)
  | .complete jobID token now => applied s (complete s.db jobID token now)
  | .fail jobID token errMsg now faults ack =>
    { s with db := (commit ack .database s.db
        (fail (finalizer faults) s.db jobID token errMsg now)).2 }
  | .recoverStaleClaims now staleClaimAt locked faults ack =>
    { s with db := (commit ack .database s.db
        (recoverStaleClaims (finalizer faults) s.db now staleClaimAt locked)).2 }
  | .purgeOldJobs olderThan => { s with db := purgeOldJobs s.db olderThan }
  | .beginJob job now ack =>
    let r := beginAnswer s job now ack
    { s with db := r.2, log := s.log ++ dispatchEvents job r.1 }
  | .finishJob job result now ack =>
    { s with db := (commit ack .database s.db (finishJobExecution s.db job result now)).2 }
  | .startChild claim target unique now ack =>
    let id := idgenNew "schedact" unique
    withNew s id fun s =>
      let r := startAnswer s claim target id now ack
      { s with db := r.2, log := s.log ++ childEvents claim target r.1 }
  | .finishChild claim child result ack =>
    { s with db := (commit ack .database s.db (finishScheduledAction s.db claim child result)).2 }
  | .addCommand unique sessionID actorID target command mode =>
    let id := idgenNew "cmd" unique
    withNew s id fun s => applied s (addCommand s.db id sessionID actorID target command mode)
  -- the API reports a command it could not queue as failed
  | .failCommand sessionID commandID output =>
    applied s (updateCommandResult s.db sessionID commandID .failed output none)
  | .deleteCommand id => { s with db := deleteCommand s.db id }
  | .deleteTerminalSession id => { s with db := deleteTerminalSession s.db id }
  | .createActionRun unique req =>
    let id := idgenNew "actrun" unique
    withNew s id fun s => applied s (createActionRun s.db id req)
  -- every caller reports the end of a run it did not queue
  | .applyActionResult result =>
    if result.status.finalJobStatus then applied s (applyActionResult s.db result) else s
  | .deleteActionRun id => { s with db := deleteActionRun s.db id }
  | .createUpdateRun unique planID planName actorID dryRun =>
    let id := idgenNew "uprun" unique
    withNew s id fun s => applied s (createUpdateRun s.db id planID planName actorID dryRun)
  | .applyUpdateResult result =>
    if result.status.finalJobStatus then applied s (applyUpdateResult s.db result) else s
  | .deleteUpdateRun id => { s with db := deleteUpdateRun s.db id }
  | .createSchedule unique task =>
    let id := idgenNew "sched" unique
    withNew s id fun s => applied s (createScheduledTask s.db id task)
  | .updateSchedule id e => applied s (updateScheduledTask s.db id e)
  | .initializeNextRun id nextRunAt =>
    { s with db := initializeScheduledTaskNextRun s.db id nextRunAt }
  | .claimSchedule claim => applied s (claimScheduledTaskExecution s.db claim)
  | .markScheduleInvalid id errorMessage =>
    applied s (markScheduledTaskInvalid s.db id errorMessage)
  | .deleteSchedule id => { s with db := deleteScheduledTask s.db id }

/-- The operations that write the queue; the others write business tables only. -/
def Op.OnQueue : Op → Bool
  | .enqueue .. | .claim .. | .renewClaim .. | .complete .. | .fail .. | .recoverStaleClaims ..
  | .purgeOldJobs .. | .beginJob .. | .finishJob .. | .claimSchedule .. => true
  | _ => false

def Op.Purges : Op → JobRow → Prop
  | .purgeOldJobs olderThan, r => isPurgeable olderThan r = true
  | _, _ => False

def Op.Adds : Op → JobRow → Prop
  | .enqueue unique kind payload configured now, r =>
    r = newRow (idgenNew "jq" unique) kind payload (maxAttempts configured) now
  | .claimSchedule c, r => r = occurrenceRow c
  | _, _ => False

variable {op : Op}

theorem Op.Adds.isNew {r : JobRow} (h : op.Adds r) : IsNew r := by
  cases op with
  | enqueue unique kind payload configured now =>
    cases h
    exact newRow_isNew _ _ _ _ (maxAttempts_pos configured)
  | claimSchedule c =>
    cases h
    exact newRow_isNew _ _ _ _ (one_le_claimMaxAttempts _)
  | _ => exact h.elim

/-- What one operation can do to the queue, to the business tables and to the generated
ids. Every invariant below is derived from this. -/
structure StepEffect (taken : String → Prop) (s s' : State) (New Gone : JobRow → Prop) : Prop where
  queue : Change JobRow.id (Move s.issued s'.issued) New Gone s.db.queue s'.db.queue
  business : Effect s.issued s'.issued taken s.db s'.db
  issued : s.issued ⊆ s'.issued

open StepEffect

structure BusinessStep (taken : String → Prop) (s s' : State) : Prop where
  queue : s'.db.queue = s.db.queue
  business : Effect s.issued s'.issued taken s.db s'.db
  issued : s.issued ⊆ s'.issued

open BusinessStep

variable {f : State → State} {id : String}

section

variable {taken : String → Prop} {s : State} {New Gone : JobRow → Prop}

theorem StepEffect.refl (s : State) : StepEffect taken s s New Gone :=
  ⟨Change.refl _, Effect.refl _, fun _ h => h⟩

theorem BusinessStep.refl (s : State) : BusinessStep taken s s := ⟨rfl, Effect.refl _, fun _ h => h⟩

theorem BusinessStep.stepEffect {s' : State} (h : BusinessStep taken s s') :
    StepEffect taken s s' New Gone := by
  refine ⟨?_, h.business, h.issued⟩
  rw [h.queue]
  exact Change.refl _

theorem withNew_effect
    (h : id ∉ s.issued → StepEffect taken s (f { s with issued := id :: s.issued }) New Gone) :
    StepEffect taken s (withNew s id f) New Gone := by
  unfold withNew
  split
  · exact refl s
  next hid => exact h hid

theorem withNew_business
    (h : id ∉ s.issued → BusinessStep taken s (f { s with issued := id :: s.issued })) :
    BusinessStep taken s (withNew s id f) := by
  unfold withNew
  split
  · exact refl s
  next hid => exact h hid

/-- A transaction of the business tables, run in a state with further generated ids. -/
theorem applied_business {α : Type} {s₀ : State} {r : Except Err (α × DB)} (hdb : s.db = s₀.db)
    (hi : s₀.issued ⊆ s.issued)
    (h : ∀ a db', r = .ok (a, db') → Effect s₀.issued s.issued taken s₀.db db' ∧
      db'.queue = s₀.db.queue) : BusinessStep taken s₀ (applied s r) := by
  cases r with
  | error e => exact ⟨by rw [applied, hdb], .of_eq (by rw [applied, hdb])
      (by rw [applied, hdb]) (by rw [applied, hdb]) (by rw [applied, hdb]), hi⟩
  | ok p =>
    obtain ⟨hb, hq⟩ := h p.1 p.2 rfl
    exact ⟨hq, hb, hi⟩

theorem commit_effect {β : Type} {ack : Ack} {r : Except Err (β × DB)} {s' : State}
    (hdb : s'.db = (commit ack .database s.db r).2) (hi : s'.issued = s.issued)
    (h : ∀ b db', r = .ok (b, db') →
      Change JobRow.id (Move s.issued s.issued) New Gone s.db.queue db'.queue ∧
        Effect s.issued s.issued taken s.db db') : StepEffect taken s s' New Gone := by
  let P : DB → Prop := fun db =>
    Change JobRow.id (Move s.issued s.issued) New Gone s.db.queue db.queue ∧
      Effect s.issued s.issued taken s.db db
  have hP : P (commit ack .database s.db r).2 := commit_state P ⟨Change.refl _, Effect.refl _⟩ h
  rw [← hdb] at hP
  exact ⟨hi ▸ hP.1, hi ▸ hP.2, by rw [hi]; exact fun _ h => h⟩

theorem updateClaimed_effect {jobID token : String} {f : JobRow → JobRow}
    (hf : ∀ r, r.status = .processing → Move s.issued s.issued r (f r)) :
    StepEffect taken s (applied s (updateClaimed s.db jobID token f)) New Gone := by
  rcases hr : updateClaimed s.db jobID token f with e | p
  · exact refl s
  have hdb := updateClaimed_ok hr
  refine ⟨updateClaimed_change hf hr, ?_, fun _ h => h⟩
  rw [applied, hdb]
  exact of_eq rfl rfl rfl rfl

variable {db db' : DB} {faults : List String} {job : Job}

theorem finalizer_ok
    (h : finalizer faults db job = .ok db') : finalizeDeadJobInTransaction db job = .ok db' := by
  unfold finalizer at h
  split at h
  · cases h
  · exact h

variable {issued issued' faults : List String}

theorem finalizer_effect
    (h : finalizer faults db job = .ok db') : Effect issued issued' taken db db' :=
  finalizeDeadJobInTransaction_effect (finalizer_ok h)

theorem finalizer_queue (h : finalizer faults db job = .ok db') : db'.queue = db.queue :=
  finalizeDeadJobInTransaction_queue (finalizer_ok h)

variable {now : ℕ}

theorem fail_effect (hk : Keyed JobRow.id db.queue) {jobID token errMsg : String}
    (h : fail (finalizer faults) db jobID token errMsg now = .ok ((), db')) :
    Change JobRow.id (Move issued issued') New Gone db.queue db'.queue ∧
      Effect issued issued' taken db db' := by
  obtain ⟨r, r', hr, hclaim, hfail, mid, rfl, hend⟩ := fail_ok h
  have hchange : Change JobRow.id (Move issued issued') New Gone db.queue
      (updateWhere (fun x => HoldsClaim jobID token x) (fun _ => r') db.queue) :=
    failRow_change hk hr hclaim hfail
  split at hend
  · rw [finalizer_queue hend]
    exact ⟨hchange, (finalizer_effect hend).of_withQueue⟩
  · rw [hend]
    exact ⟨hchange, of_eq rfl rfl rfl rfl⟩

variable {dead : List Job}

theorem finalizeAll_effect (h : dead.foldlM (finalizer faults) db = .ok db') :
    Effect issued issued' taken db db' := by
  refine foldlM_invariant (Effect issued issued' taken db) ?_ (Effect.refl db) h
  intro x job x' _ hx hfin
  exact hx.trans (finalizer_effect hfin)

theorem finalizeAll_queue
    (h : dead.foldlM (finalizer faults) db = .ok db') : db'.queue = db.queue := by
  refine foldlM_invariant (fun x : DB => x.queue = db.queue) ?_ rfl h
  intro x job x' _ hx hfin
  exact (finalizer_queue hfin).trans hx

theorem recover_effect (hk : Keyed JobRow.id db.queue) {staleClaimAt : ℕ} {locked : List String}
    (h : recoverStaleClaims (finalizer faults) db now staleClaimAt locked = .ok (dead, db')) :
    Change JobRow.id (Move issued issued') New Gone db.queue db'.queue ∧
      Effect issued issued' taken db db' := by
  rcases recoverStaleClaims_ok h with ⟨-, rfl⟩ | ⟨ids, queue, rfl, hbatch, -, hfold⟩
  · exact ⟨Change.refl _, Effect.refl db'⟩
  · rw [finalizeAll_queue hfold]
    exact ⟨recoverBatch_change hk hbatch, (finalizeAll_effect hfold).of_withQueue⟩

theorem isScheduledRunID_scheduledActionRunID (jobID target : String) :
    isScheduledRunID (scheduledActionRunID jobID target) = true := by
  simp [isScheduledRunID, scheduledActionRunID]

theorem isScheduledRunID_actrun (unique : String) :
    isScheduledRunID (idgenNew "actrun" unique) = false := by
  simp [isScheduledRunID, idgenNew]

theorem start_effect {issued issued' : List String} {claim : Job}
    {target actionJobID : String} {child : ActionJob}
    (h : startScheduledAction db claim target actionJobID now = .ok (child, db')) :
    Effect issued issued' taken db db' ∧ db'.queue = db.queue := by
  obtain ⟨r, p, -, -, -, hchild, actionRuns, hins, rfl⟩ := startScheduledAction_ok h
  refine ⟨⟨.refl, .single (.insertRow (.inr ⟨rfl, ?_⟩) hins), .refl, .refl⟩, rfl⟩
  rw [hchild]
  exact isScheduledRunID_scheduledActionRunID p.jobID target

theorem step_business (hop : op.OnQueue = false) : BusinessStep taken s (step s op) := by
  cases op with
  | startChild claim target unique now ack =>
    simp only [step]
    refine withNew_business fun _ => ?_
    let P : DB → Prop := fun db =>
      db.queue = s.db.queue ∧ Effect s.issued (idgenNew "schedact" unique :: s.issued) taken s.db db
    have hP : P (commit ack Err.database s.db (startScheduledAction s.db claim target
        (idgenNew "schedact" unique) now)).2 := by
      refine commit_state P ⟨rfl, Effect.refl _⟩ fun child db' h => ?_
      exact (start_effect h).symm
    exact ⟨hP.1, hP.2, subset_cons_self _ _⟩
  | finishChild claim child result ack =>
    let P : DB → Prop := fun db => db.queue = s.db.queue ∧ Effect s.issued s.issued taken s.db db
    have hP : P (commit ack Err.database s.db (finishScheduledAction s.db claim child result)).2 := by
      refine commit_state P ⟨rfl, Effect.refl _⟩ fun _ db' h => ?_
      have hw := finishScheduledAction_ok h
      obtain ⟨-, rfl⟩ := writeActionJobResult_ok hw
      exact ⟨rfl, writeActionJobResult_effect hw⟩
    exact ⟨hP.1, hP.2, fun _ h => h⟩
  | addCommand unique sessionID actorID target command mode =>
    simp only [step]
    refine withNew_business fun hfresh => applied_business rfl (subset_cons_self _ _) fun _ _ h => ?_
    exact addCommand_effect hfresh (.head _) h
  | failCommand sessionID commandID output =>
    exact applied_business rfl (fun _ h => h) fun _ _ h => updateCommandResult_effect rfl h
  | deleteCommand id => exact ⟨rfl, deleteCommand_effect _ _, fun _ h => h⟩
  | deleteTerminalSession id => exact ⟨rfl, deleteTerminalSession_effect _ _, fun _ h => h⟩
  | createActionRun unique req =>
    simp only [step]
    refine withNew_business fun hfresh => applied_business rfl (subset_cons_self _ _) fun _ _ h => ?_
    exact createActionRun_effect hfresh (.head _) (isScheduledRunID_actrun unique) h
  | applyActionResult result =>
    simp only [step]
    split
    next hfin =>
      exact applied_business rfl (fun _ h => h) fun _ _ h =>
        applyActionResult_effect (finalJobStatus_inactive hfin) h
    · exact refl s
  | deleteActionRun id => exact ⟨rfl, deleteActionRun_effect _ _, fun _ h => h⟩
  | createUpdateRun unique planID planName actorID dryRun =>
    simp only [step]
    refine withNew_business fun hfresh => applied_business rfl (subset_cons_self _ _) fun _ _ h => ?_
    exact createUpdateRun_effect hfresh (.head _) h
  | applyUpdateResult result =>
    simp only [step]
    split
    next hfin =>
      exact applied_business rfl (fun _ h => h) fun _ _ h =>
        applyUpdateResult_effect (finalJobStatus_inactive hfin) h
    · exact refl s
  | deleteUpdateRun id => exact ⟨rfl, deleteUpdateRun_effect _ _, fun _ h => h⟩
  | createSchedule unique task =>
    simp only [step]
    exact withNew_business fun _ => applied_business rfl (subset_cons_self _ _) fun _ _ h =>
      createScheduledTask_effect h
  | updateSchedule id e =>
    exact applied_business rfl (fun _ h => h) fun _ _ h => updateScheduledTask_effect h
  | initializeNextRun id nextRunAt =>
    exact ⟨rfl, initializeScheduledTaskNextRun_effect _ _ _, fun _ h => h⟩
  | markScheduleInvalid id errorMessage =>
    exact applied_business rfl (fun _ h => h) fun _ _ h => markScheduledTaskInvalid_effect h
  | deleteSchedule id => exact ⟨rfl, deleteScheduledTask_effect _ _, fun _ h => h⟩
  | _ => cases hop

theorem step_queue_eq (hop : op.OnQueue = false) : (step s op).db.queue = s.db.queue := by
  have h : BusinessStep (fun _ => True) s (step s op) := step_business hop
  exact h.queue

/-- Only a schedule claim depends on which occurrences are taken. -/
def RespectsQueue (taken : String → Prop) (s : State) (op : Op) : Prop :=
  ∀ claim, op = .claimSchedule claim → ∀ j, taken j → j ∈ s.db.queue.map JobRow.id

theorem step_effect (hk : Keyed JobRow.id s.db.queue) (ht : TablesKeyed s.db)
    (htaken : RespectsQueue taken s op) : StepEffect taken s (step s op) op.Adds op.Purges := by
  cases op with
  | enqueue unique kind payload configured now =>
    simp only [step]
    refine withNew_effect fun _ => ?_
    rcases hr : enqueue s.db (idgenNew "jq" unique) kind payload configured now with e | p
    · exact ⟨Change.refl _, Effect.refl _, subset_cons_self _ _⟩
    obtain ⟨queue, hins, hdb⟩ := enqueue_queue hr
    simp only [applied, hdb]
    refine ⟨?_, of_eq rfl rfl rfl rfl, subset_cons_self _ _⟩
    have hnew : Op.Adds (.enqueue unique kind payload configured now)
        (newRow (idgenNew "jq" unique) kind payload (maxAttempts configured) now) := rfl
    exact Change.insertRow hnew hins
  | claim unique now locked =>
    simp only [step]
    refine withNew_effect fun hfresh => ⟨?_, ?_, subset_cons_self _ _⟩
    · exact claim_change hk hfresh (.head _) now locked
    simp only [claim]
    split
    · exact Effect.refl _
    · exact of_eq rfl rfl rfl rfl
  | renewClaim jobID token now => exact updateClaimed_effect (fun r hp => .renew r now hp)
  | complete jobID token now => exact updateClaimed_effect (fun r hp => .complete r now hp)
  | fail jobID token errMsg now faults ack =>
    refine commit_effect rfl rfl fun _ db' h => ?_
    exact fail_effect hk h
  | recoverStaleClaims now staleClaimAt locked faults ack =>
    refine commit_effect rfl rfl fun dead db' h => ?_
    exact recover_effect hk h
  | purgeOldJobs olderThan =>
    refine ⟨?_, of_eq rfl rfl rfl rfl, fun _ h => h⟩
    exact Change.deleteWhere fun r _ hr => hr
  | beginJob job now ack =>
    exact commit_effect rfl rfl fun dispatch db' h => beginJobExecution_effect hk ht h
  | finishJob job result now ack =>
    exact commit_effect rfl rfl fun _ db' h => finishJobExecution_effect hk h
  | claimSchedule claim =>
    simp only [step]
    rcases hr : claimScheduledTaskExecution s.db claim with e | p
    · exact refl s
    have hnew : Op.Adds (.claimSchedule claim) (occurrenceRow claim) := rfl
    obtain ⟨hb, hq⟩ := claimScheduledTaskExecution_effect (htaken claim rfl) hnew hr
    exact ⟨hq, hb, fun _ h => h⟩
  | _ => exact (step_business rfl).stepEffect

end

/-- The operations whose answer can authorise work. -/
def Op.Authorises : Op → Bool
  | .beginJob .. | .startChild .. => true
  | _ => false

@[simp] theorem applied_log {α : Type} (s : State) (r : Except Err (α × DB)) :
    (applied s r).log = s.log := by
  cases r <;> rfl

theorem withNew_log {s : State}
    (h : ∀ s', s'.log = s.log → (f s').log = s.log) : (withNew s id f).log = s.log := by
  unfold withNew
  split
  · rfl
  · exact h _ rfl

theorem step_log_eq {s : State} (hop : op.Authorises = false) : (step s op).log = s.log := by
  cases op with
  | beginJob job now ack | startChild claim target unique now ack => cases hop
  | enqueue unique kind payload configured now
  | addCommand unique sessionID actorID target command mode | createActionRun unique req
  | createUpdateRun unique planID planName actorID dryRun | createSchedule unique task => exact withNew_log (by simp)
  | claim unique now locked => exact withNew_log fun _ h => h
  | applyActionResult result | applyUpdateResult result =>
    simp only [step]
    split
    · exact applied_log ..
    · rfl
  | _ => simp [step]

end LabTether.Hub
