import LabTether.DispatchOnce
import LabTether.ScheduleTargets
import LabTether.TerminalAgreement

/-!
The workers that execute jobs, over the hub.
A worker claims a job, runs its handler and settles it (`processOneWithQueue`); the
handlers begin the execution, do the work and finish it, and the schedule handler starts
its children in between. Workers run side by side, may stop at any point and come back
with nothing in memory, and may go on after losing their claim. What the work itself does
is not modelled: its result is an argument. Every other caller of the hub is a `hub`
operation; the API enqueues a job only for a record that it created.
-/
namespace LabTether.WorkerFleet

open Transition Transaction JobQueue BusinessRecords JobExecution Hub ScheduleTargets Function
  TerminalAgreement

/-- Where a worker is with its job. `job.status` is the worker's copy of the status, which
the execution transactions set when their commit is acknowledged. -/
inductive Phase
  | idle
  | handling (job : Job)
  /-- dispatched; the targets not yet tried and the children in flight -/
  | executing (job : Job) (todo : List String) (children : List ActionJob)
  /-- the handler returned, with an error or without -/
  | returned (job : Job) (failed : Bool)

structure Worker where
  phase : Phase
  /-- the heartbeat cancelled the handler's context with `ErrClaimLost` -/
  claimLost : Bool

def Worker.idle : Worker := ⟨.idle, false⟩

inductive Act
  | claim (unique : String) (now : ℕ) (locked : List String)
  | heartbeat (now : ℕ)
  /-- an error or a panic of the handler: decoding, preparation, a cancelled context -/
  | handlerError
  | begin (assets : List AssetRef) (groups : List GroupRef) (now : ℕ) (ack : Ack)
  | startTarget (target unique : String) (now : ℕ) (ack : Ack)
  /-- a target that is refused or cancelled before it is started -/
  | skipTarget (target : String)
  | finishTarget (child : ActionJob) (result : ActionResult) (ack : Ack)
  | finish (result : JobExecutionResult) (now : ℕ) (ack : Ack)
  /-- `errMsg` is the text of the handler's error, if there was one -/
  | settle (errMsg : String) (now : ℕ) (faults : List String) (ack : Ack)
  | crash

/-- The targets of a job; a definition error leaves none, and the other jobs have none. -/
def targetsOf (assets : List AssetRef) (groups : List GroupRef) (job : Job) : List String :=
  match ownerOf job.id job.kind job.payload with
  | some (.schedule p) => (resolveScheduleExecutionTargets assets groups p).toOption.getD []
  | _ => []

/-- The hub operation that an action amounts to, if it is possible and calls the hub. -/
def call (s : State) (w : Worker) : Act → Option Op
  | .claim unique now locked =>
    match w.phase with
    | .idle => some (.claim unique now locked)
    | _ => none
  | .heartbeat now =>
    match w.phase with
    | .handling job | .executing job _ _ => some (.renewClaim job.id job.lockToken now)
    | _ => none
  | .begin _ _ now ack =>
    match w.phase with
    | .handling job => some (.beginJob job now ack)
    | _ => none
  | .startTarget target unique now ack =>
    match w.phase with
    | .executing job todo _ =>
      if target ∈ todo ∧ idgenNew "schedact" unique ∉ s.issued then
        some (.startChild job target unique now ack)
      else none
    | _ => none
  | .finishTarget child result ack =>
    match w.phase with
    | .executing job _ children =>
      if child ∈ children then some (.finishChild job child result ack) else none
    | _ => none
  | .finish result now ack =>
    match w.phase with
    | .executing job [] [] => some (.finishJob job result now ack)
    | _ => none
  | .settle errMsg now faults ack =>
    match w.phase with
    | .returned job failed =>
      if job.status = .completed ∨ w.claimLost = true then none
      else if failed = true then some (.fail job.id job.lockToken errMsg now faults ack)
      else some (.complete job.id job.lockToken now)
    | _ => none
  | .handlerError | .skipTarget _ | .crash => none

/-- The worker after it claimed: a kind without a handler fails at once. -/
def claimed : Option Job → Worker
  | none => .idle
  | some job =>
    match job.kind with
    | .other _ => ⟨.returned job true, false⟩
    | _ => ⟨.handling job, false⟩

def begun (w : Worker) (job : Job) (targets : List String) : Except Err Bool → Worker
  | .ok true => { w with phase := .executing job targets [] }
  | .ok false => { w with phase := .returned { job with status := .completed } false }
  | .error _ => { w with phase := .returned job true }

def finished (w : Worker) (job : Job) : Except Err Unit → Worker
  | .ok () => { w with phase := .returned { job with status := .completed } false }
  | .error _ => { w with phase := .returned job true }

def started (w : Worker) (job : Job) (todo : List String) (children : List ActionJob) :
    Except Err ActionJob → Worker
  | .ok child => { w with phase := .executing job todo (child :: children) }
  | .error _ => { w with phase := .executing job todo children }

def next (s : State) (w : Worker) : Act → Worker
  | .claim unique now locked =>
    match w.phase with
    | .idle =>
      let token := idgenNew "jqlock" unique
      if token ∈ s.issued then w else claimed (JobQueue.claim s.db token now locked).1
    | _ => w
  | .heartbeat now =>
    match w.phase with
    | .handling job | .executing job _ _ =>
      if renewClaim s.db job.id job.lockToken now = .error .claimLost then
        { w with claimLost := true }
      else w
    | _ => w
  | .handlerError =>
    match w.phase with
    | .handling job | .executing job _ _ => { w with phase := .returned job true }
    | _ => w
  | .begin assets groups now ack =>
    match w.phase with
    | .handling job => begun w job (targetsOf assets groups job) (beginAnswer s job now ack).1
    | _ => w
  | .startTarget target unique now ack =>
    match w.phase with
    | .executing job todo children =>
      let id := idgenNew "schedact" unique
      if target ∈ todo ∧ id ∉ s.issued then
        started w job (todo.erase target) children (startAnswer s job target id now ack).1
      else w
    | _ => w
  | .skipTarget target =>
    match w.phase with
    | .executing job todo children =>
      { w with phase := .executing job (todo.erase target) children }
    | _ => w
  | .finishTarget child _ _ =>
    match w.phase with
    | .executing job todo children =>
      { w with phase := .executing job todo (children.erase child) }
    | _ => w
  | .finish result now ack =>
    match w.phase with
    | .executing job [] [] =>
      finished w job (commit ack Err.database s.db (finishJobExecution s.db job result now)).1
    | _ => w
  | .settle .. =>
    match w.phase with
    | .returned _ _ => .idle
    | _ => w
  | .crash => .idle

structure Fleet where
  hub : State
  workers : ℕ → Worker

open Fleet

def Fleet.init : Fleet := ⟨State.init, fun _ => .idle⟩

/-- The operations of the hub that workers call. -/
def byWorker : Op → Bool
  | .claim .. | .renewClaim .. | .complete .. | .fail .. | .beginJob .. | .finishJob ..
  | .startChild .. | .finishChild .. => true
  | _ => false

/-- A call by the API, the scheduler or the recovery loop. A request handler creates the
record that it enqueues a job for. -/
def HubCall (s : State) (op : Op) : Prop :=
  byWorker op = false ∧ ∀ o ∈ submitted op, Generated s.issued o
  deriving Decidable

inductive FleetOp
  | hub (op : Op)
  | work (w : ℕ) (act : Act)

/-- The hub operation that a step of the fleet amounts to. -/
def hubOp (f : Fleet) : FleetOp → Option Op
  | .hub op => if HubCall f.hub op then some op else none
  | .work w act => call f.hub (f.workers w) act

def workersAfter (f : Fleet) : FleetOp → ℕ → Worker
  | .hub _ => f.workers
  | .work w act => update f.workers w (next f.hub (f.workers w) act)

def fleetStep (f : Fleet) (op : FleetOp) : Fleet where
  hub := (hubOp f op).elim f.hub (step f.hub)
  workers := workersAfter f op

section

variable {s : State} {w : Worker} {act : Act} {job : Job}

theorem next_returned {failed : Bool} (h : (next s w act).phase = .returned job failed) :
    w.phase = .returned job failed ∨ failed = true ∨ job.status = .completed := by
  revert h
  -- where an act does not apply, the worker stays as it was
  fun_cases next s w act <;> intro h
  all_goals
    try simp only [claimed, begun, started, finished] at h
    repeat' split at h
  all_goals first | exact .inl h | cases h <;> simp

/-- A worker that is executing was told to, or is further on with its targets. -/
theorem next_executing {todo' : List String} {children' : List ActionJob}
    (h : (next s w act).phase = .executing job todo' children') :
    (∃ assets groups now ack, act = .begin assets groups now ack ∧ w.phase = .handling job ∧
      (beginAnswer s job now ack).1 = .ok true ∧ todo' = targetsOf assets groups job) ∨
    (∃ todo children, w.phase = .executing job todo children ∧ (todo' = todo ∨
      ∃ target, todo' = todo.erase target) ∧
      ∀ target unique now ack, act = .startTarget target unique now ack →
        target ∈ todo → idgenNew "schedact" unique ∉ s.issued → todo' = todo.erase target) := by
  revert h
  fun_cases next s w act <;> intro h
  case case12 assets groups now ack j hjob =>
    unfold begun at h
    split at h
    next hans =>
      cases h
      exact .inl ⟨assets, groups, now, ack, rfl, hjob, hans, rfl⟩
    all_goals cases h
  case case14 target unique now ack j todo children hexec _ _ =>
    unfold started at h
    split at h <;> cases h
    all_goals exact .inr ⟨todo, _, hexec, .inr ⟨target, rfl⟩, by simp_all⟩
  case case15 hexec _ hguard =>
    refine .inr ⟨_, _, h, .inl rfl, ?_⟩
    cases hexec.symm.trans h
    rintro t u n a ⟨⟩ ht hu
    exact absurd ⟨ht, hu⟩ hguard
  case case16 hne => exact absurd h (hne _ _ _)
  case case17 target j todo children hexec =>
    cases h
    exact .inr ⟨_, _, hexec, .inr ⟨target, rfl⟩, by simp⟩
  case case19 hexec =>
    cases h
    exact .inr ⟨_, _, hexec, .inl rfl, by simp⟩
  -- the other acts keep the phase, or the worker is not executing after them
  all_goals
    try simp only [claimed, finished] at h
    repeat' split at h
  all_goals first | exact .inr ⟨_, _, h, .inl rfl, by simp⟩ | cases h

/-- A handler that returned without an error had its job completed. -/
def Sound (w : Worker) : Prop := ∀ job, w.phase = .returned job false → job.status = .completed

theorem next_sound (h : Sound w) : Sound (next s w act) := by
  intro job hret
  rcases next_returned hret with hold | hfail | hdone
  · exact h job hold
  · cases hfail
  · exact hdone

/-- So the worker never calls `Complete`, and it enqueues nothing. -/
theorem call_admissible (h : Sound w) {op : Op} (hcall : call s w act = some op) :
    Admissible s op := by
  revert hcall
  fun_cases call s w act
  all_goals rintro ⟨⟩
  case case18 job failed hret hopen hok =>
    obtain rfl : failed = false := by simpa using hok
    exact absurd (.inl (h job hret)) hopen
  all_goals simp [Admissible, submitted]

theorem call_byWorker {op : Op} (hcall : call s w act = some op) : byWorker op = true := by
  cases act <;> simp only [call] at hcall <;> repeat' split at hcall
  all_goals cases hcall
  all_goals rfl

end

variable {f : Fleet} {op : FleetOp} {o : Op}

theorem hubOp_admissible (h : ∀ w, Sound (f.workers w)) (ho : hubOp f op = some o) :
    Admissible f.hub o := by
  cases op with
  | hub op =>
    simp only [hubOp] at ho
    split at ho
    next hcall =>
      cases ho
      refine ⟨fun jobID token now he => ?_, hcall.2⟩
      have hnot := hcall.1
      rw [he] at hnot
      cases hnot
    · cases ho
  | work w act => exact call_admissible (h w) ho

structure Inv (f : Fleet) : Prop where
  hub : TerminalAgreement.Inv f.hub
  workers : ∀ w, Sound (f.workers w)

theorem init_inv : Inv init := ⟨TerminalAgreement.init_inv, fun _ _ h => by cases h⟩

theorem step_inv (h : Inv f) (op : FleetOp) : Inv (fleetStep f op) := by
  constructor
  · change TerminalAgreement.Inv ((hubOp f op).elim f.hub (step f.hub))
    cases ho : hubOp f op with
    | none => exact h.hub
    | some o => exact TerminalAgreement.step_inv h.hub (hubOp_admissible h.workers ho)
  intro v
  rcases op with op | ⟨w, act⟩
  · exact h.workers v
  change Sound (update f.workers w (next f.hub (f.workers w) act) v)
  by_cases hv : v = w
  · subst hv
    rw [update_self]
    exact next_sound (h.workers v)
  · rw [update_of_ne hv]
    exact h.workers v

theorem reachable_inv (ops : List FleetOp) : Inv (run fleetStep init ops) :=
  run_invariant_all fleetStep Inv (fun _ op h => step_inv h op) init_inv ops

def KeepsQueue (op : FleetOp) : Prop := ∀ o, op = .hub o → DispatchOnce.Keeps o

theorem hubOp_keeps (h : KeepsQueue op) (ho : hubOp f op = some o) : DispatchOnce.Keeps o := by
  cases op with
  | hub op =>
    simp only [hubOp] at ho
    split at ho
    · cases ho
      exact h o rfl
    · cases ho
  | work w act =>
    intro olderThan he
    have hby := call_byWorker ho
    rw [he] at hby
    cases hby

/-- Agreement of the queue with the business tables, over every interleaving of workers and
other callers: a completed or dead-lettered job leaves no record queued or running under the
identity in its payload, and a finalizer that fails takes the dead-lettering back. -/
theorem terminal_agreement (ops : List FleetOp) :
    let s := (run fleetStep init ops).hub
    (∀ r ∈ s.db.queue, r.status = .completed ∨ r.status = .deadLettered →
      ∀ o, ownerOf r.id r.kind r.payload = some o →
        ∀ st, NamedStatus s.db o st → st ≠ .queued ∧ st ≠ .running) ∧
    FinalizerAtomic s := by
  intro s
  refine ⟨?_, finalizerAtomic s⟩
  intro r hr hend o ho st hst
  have hterminal : r.status.isTerminal = true := by rcases hend with h | h <;> rw [h] <;> rfl
  have hactive : st.isActive = false := (reachable_inv ops).hub.agrees r hr hterminal o ho st hst
  constructor
  · intro hq
    rw [hq] at hactive
    cases hactive
  · intro hrun
    rw [hrun] at hactive
    cases hactive

end LabTether.WorkerFleet
