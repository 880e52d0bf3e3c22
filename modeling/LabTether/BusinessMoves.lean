import LabTether.BusinessRecords

/-!
What a write can do to a business row, and what follows for the record a job names.
A status only moves from queued to running, or to one that is no longer active; a
record becomes queued only when it is created or when its schedule claims a new
occurrence. `Effect` states this for all four tables at once, and is what the
job-execution transactions, the recovery finalizers and the API's own writes share.
-/
namespace LabTether.BusinessRecords

open Table Transaction List Option Changes RunStatus Change

def StatusMove (a b : RunStatus) : Prop := (a = .queued ∧ b = .running) ∨ b.isActive = false

theorem StatusMove.active {a b : RunStatus} (h : StatusMove a b) (hb : b.isActive = true) :
    a = .queued ∧ b = .running := by
  rcases h with h | h
  · exact h
  · rw [hb] at h
    cases h

variable {st : RunStatus}

theorem finalJobStatus_inactive (h : st.finalJobStatus = true) :
    st.isActive = false := by
  cases st <;> simp_all [finalJobStatus, isActive]

theorem finalScheduleStatus_inactive (h : st.finalScheduleStatus = true) :
    st.isActive = false := by
  cases st <;> simp_all [finalScheduleStatus, isActive]

inductive CommandMove : CommandRow → CommandRow → Prop
  | mk (r : CommandRow) (status : RunStatus) (output : String) (exitCode : Option ℤ)
      (h : StatusMove r.status status) :
      CommandMove r { r with status := status, output := output, exitCode := exitCode }

inductive ActionMove : ActionRow → ActionRow → Prop
  | mk (r : ActionRow) (status : RunStatus) (output error : String)
      (h : StatusMove r.status status) :
      ActionMove r { r with status := status, output := output, error := error }

inductive UpdateMove : UpdateRow → UpdateRow → Prop
  | mk (r : UpdateRow) (status : RunStatus) (summary error : String)
      (h : StatusMove r.status status) :
      UpdateMove r { r with status := status, summary := summary, error := error }

/-- A schedule row keeps its occurrence, drops it, or claims one whose job id no queue
row has. -/
inductive ScheduleMove (taken : String → Prop) : ScheduleRow → ScheduleRow → Prop
  | edit (t t' : ScheduleRow) (hid : t'.id = t.id) (hjob : t'.lastRunJobID = t.lastRunJobID)
      (hst : t'.lastRunStatus = t.lastRunStatus) : ScheduleMove taken t t'
  | advance (t t' : ScheduleRow) (hid : t'.id = t.id) (hjob : t'.lastRunJobID = t.lastRunJobID)
      (hst : StatusMove t.lastRunStatus t'.lastRunStatus) : ScheduleMove taken t t'
  | release (t t' : ScheduleRow) (hid : t'.id = t.id) (hjob : t'.lastRunJobID = none)
      (hst : t'.lastRunStatus.isActive = false) : ScheduleMove taken t t'
  | claim (t t' : ScheduleRow) (jobID : String) (hid : t'.id = t.id)
      (hjob : t'.lastRunJobID = some jobID) (hst : t'.lastRunStatus = .queued)
      (hfresh : ¬ taken jobID) : ScheduleMove taken t t'

section

/-- `issued` and `issued'` are the generated ids before and after; a schedule claims only an
occurrence whose job id is not `taken`. -/
structure Effect (issued issued' : List String) (taken : String → Prop) (db db' : DB) : Prop where
  commands : Changes CommandRow.id CommandMove
    (fun r => r.status = .queued ∧ r.id ∉ issued ∧ r.id ∈ issued') (fun _ => True)
    db.commands db'.commands
  actionRuns : Changes ActionRow.id ActionMove
    (fun r => (r.status = .queued ∧ r.id ∉ issued ∧ r.id ∈ issued' ∧
        isScheduledRunID r.id = false) ∨
      (r.status = .running ∧ isScheduledRunID r.id = true)) (fun _ => True)
    db.actionRuns db'.actionRuns
  updateRuns : Changes UpdateRow.id UpdateMove
    (fun r => r.status = .queued ∧ r.id ∉ issued ∧ r.id ∈ issued') (fun _ => True)
    db.updateRuns db'.updateRuns
  schedules : Changes ScheduleRow.id (ScheduleMove taken)
    (fun t => t.lastRunJobID = none) (fun _ => True) db.schedules db'.schedules

variable {issued issued' : List String} {taken : String → Prop} {db db' db'' : DB}

theorem Effect.refl (db : DB) : Effect issued issued' taken db db := ⟨.refl, .refl, .refl, .refl⟩

theorem Effect.trans (h : Effect issued issued' taken db db')
    (h' : Effect issued issued' taken db' db'') : Effect issued issued' taken db db'' :=
  ⟨h.commands.trans h'.commands, h.actionRuns.trans h'.actionRuns,
    h.updateRuns.trans h'.updateRuns, h.schedules.trans h'.schedules⟩

theorem Effect.of_eq (hc : db'.commands = db.commands) (ha : db'.actionRuns = db.actionRuns)
    (hu : db'.updateRuns = db.updateRuns) (hs : db'.schedules = db.schedules) :
    Effect issued issued' taken db db' := by
  refine ⟨?_, ?_, ?_, ?_⟩
  · rw [hc]
  · rw [ha]
  · rw [hu]
  · rw [hs]

theorem Effect.of_withQueue {queue : List JobRow}
    (h : Effect issued issued' taken { db with queue := queue } db') :
    Effect issued issued' taken db db' :=
  { h with }

theorem updateCommands_effect {p : CommandRow → Bool} {f : CommandRow → CommandRow}
    (h : ∀ r ∈ db.commands, p r = true → CommandMove r (f r)) :
    Effect issued issued' taken db (updateCommands db p f) :=
  ⟨(updateWhere h).changes, .refl, .refl, .refl⟩

theorem updateActionRuns_effect {p : ActionRow → Bool} {f : ActionRow → ActionRow}
    (h : ∀ r ∈ db.actionRuns, p r = true → ActionMove r (f r)) :
    Effect issued issued' taken db (updateActionRuns db p f) :=
  ⟨.refl, (updateWhere h).changes, .refl, .refl⟩

theorem updateUpdateRuns_effect {p : UpdateRow → Bool} {f : UpdateRow → UpdateRow}
    (h : ∀ r ∈ db.updateRuns, p r = true → UpdateMove r (f r)) :
    Effect issued issued' taken db (updateUpdateRuns db p f) :=
  ⟨.refl, .refl, (updateWhere h).changes, .refl⟩

theorem updateSchedules_effect {p : ScheduleRow → Bool} {f : ScheduleRow → ScheduleRow}
    (h : ∀ r ∈ db.schedules, p r = true → ScheduleMove taken r (f r)) :
    Effect issued issued' taken db (updateSchedules db p f) :=
  ⟨.refl, .refl, .refl, (updateWhere h).changes⟩

end

/-- The four business tables are keyed by id. -/
structure TablesKeyed (db : DB) : Prop where
  commands : Keyed CommandRow.id db.commands
  actionRuns : Keyed ActionRow.id db.actionRuns
  updateRuns : Keyed UpdateRow.id db.updateRuns
  schedules : Keyed ScheduleRow.id db.schedules

theorem Effect.tablesKeyed {issued issued' : List String} {taken : String → Prop} {db db' : DB}
    (h : Effect issued issued' taken db db') (hk : TablesKeyed db) : TablesKeyed db' where
  commands := h.commands.keyed (fun _ _ hm => by cases hm; rfl) hk.commands
  actionRuns := h.actionRuns.keyed (fun _ _ hm => by cases hm; rfl) hk.actionRuns
  updateRuns := h.updateRuns.keyed (fun _ _ hm => by cases hm; rfl) hk.updateRuns
  schedules := h.schedules.keyed (fun _ _ hm => by cases hm <;> assumption) hk.schedules

theorem TablesKeyed.withQueue {db : DB} (h : TablesKeyed db) (queue : List JobRow) :
    TablesKeyed (db.withQueue queue) :=
  { h with }

variable {p : ExecutionJob} {id : String}

section

def Owner.logicalID : Owner → String
  | .terminal p => p.jobID
  | .action p => p.jobID
  | .update p => p.jobID
  | .schedule p => p.jobID

/-- The record that a queue row's kind, payload and id identify. -/
def ownerOf (id : String) (kind : JobKind) (payload : Payload) : Option Owner :=
  match kind with
  | .terminalCommand =>
    payload.asTerminal.bind fun p => if p.jobID = "" then none else some (.terminal p)
  | .actionRun => payload.asAction.bind fun p => if p.jobID = "" then none else some (.action p)
  | .updateRun => payload.asUpdate.bind fun p => if p.jobID = "" then none else some (.update p)
  | .scheduleRun =>
    payload.asSchedule.bind fun p =>
      if p.jobID ≠ id ∨ p.jobID = "" then none else some (.schedule p)
  | .other _ => none

def ownerStatus (db : DB) : Owner → Option RunStatus
  | .terminal p => (db.commands.find? fun r => CommandNamed p r).map CommandRow.status
  | .action p => lockActionJob db p
  | .update p => (db.updateRuns.find? fun r => UpdateNamed p r).map UpdateRow.status
  | .schedule p => some (occurrenceStatus db p)

/-- The record exists, with the identity the payload names, in this status. -/
def NamedStatus (db : DB) (o : Owner) (st : RunStatus) : Prop :=
  match o with
  | .terminal p => ∃ r ∈ db.commands, CommandNamed p r ∧ r.status = st
  | .action p => ∃ r ∈ db.actionRuns, ActionNamed p r ∧ r.status = st
  | .update p => ∃ r ∈ db.updateRuns, UpdateNamed p r ∧ r.status = st
  | .schedule p =>
    ∃ t ∈ db.schedules, t.id = p.scheduleID ∧ t.lastRunJobID = some p.jobID ∧ t.lastRunStatus = st

/-- The record is not queued and not running, if it is there at all. -/
def Settled (db : DB) (o : Owner) : Prop := ∀ st, NamedStatus db o st → st.isActive = false

variable {db db' : DB} {o : Owner} {st : RunStatus}

def lockOwner (db : DB) : Option Owner → Except Err JobBusiness
  | none => .error .businessIdentity
  | some o =>
    match ownerStatus db o with
    | none => .error .businessIdentity
    | some st => .ok ⟨st, o⟩

theorem identified_eq (db : DB) (logicalID : String) (o : Owner) :
    identified logicalID o (ownerStatus db o) =
      lockOwner db (if logicalID = "" then none else some o) := by
  by_cases h : logicalID = ""
  · simp [identified, lockOwner, h]
  · cases hstatus : ownerStatus db o <;> simp [identified, lockOwner, h, hstatus]

theorem lockJobBusiness_eq (db : DB) (job : Job) :
    lockJobBusiness db job = lockOwner db (ownerOf job.id job.kind job.payload) := by
  unfold lockJobBusiness ownerOf
  cases job.kind with
  | terminalCommand =>
    cases job.payload.asTerminal with
    | none => rfl
    | some p => exact identified_eq db p.jobID (.terminal p)
  | actionRun =>
    cases job.payload.asAction with
    | none => rfl
    | some p => exact identified_eq db p.jobID (.action p)
  | updateRun =>
    cases job.payload.asUpdate with
    | none => rfl
    | some p => exact identified_eq db p.jobID (.update p)
  | scheduleRun =>
    rcases job.payload.asSchedule with _ | p
    · rfl
    by_cases hid : p.jobID = job.id
    · by_cases hp : job.id = "" <;> simp [identified, lockOwner, ownerStatus, hid, hp]
    · simp [lockOwner, hid]
  | other name => rfl

theorem lockJobBusiness_ok {job : Job} {b : JobBusiness} : lockJobBusiness db job = .ok b ↔
      ownerOf job.id job.kind job.payload = some b.owner ∧
        ownerStatus db b.owner = some b.status := by
  rw [lockJobBusiness_eq]
  rcases ownerOf job.id job.kind job.payload with _ | o
  · simp [lockOwner]
  obtain ⟨st, o'⟩ := b
  by_cases ho : o = o'
  · subst ho
    cases hst : ownerStatus db o <;> simp [lockOwner, hst]
  · cases hst : ownerStatus db o <;> simp [lockOwner, hst, ho]

theorem lockJobBusiness_error {job : Job} {e : Err} (h : lockJobBusiness db job = .error e) :
    e = .businessIdentity ∧ ∀ o, ownerOf job.id job.kind job.payload = some o →
      ownerStatus db o = none := by
  rw [lockJobBusiness_eq] at h
  cases ho : ownerOf job.id job.kind job.payload with
  | none => simpa [ho, lockOwner, eq_comm] using h
  | some o => cases hst : ownerStatus db o <;> simp_all [lockOwner]

variable {payload : Payload} {kind : JobKind}

theorem ownerOf_logicalID (h : ownerOf id kind payload = some o) : o.logicalID ≠ "" := by
  cases kind <;> simp only [ownerOf, bind_eq_some_iff, reduceCtorEq] at h
  all_goals
    obtain ⟨p, -, h⟩ := h
    split at h
    · cases h
    next hne =>
      cases h
      tauto

theorem ownerOf_scheduleRun
    (h : ownerOf id .scheduleRun payload = some o) : ∃ p, o = .schedule p := by
  simp only [ownerOf, bind_eq_some_iff] at h
  obtain ⟨p, -, h⟩ := h
  split at h
  · cases h
  · exact ⟨p, (some.inj h).symm⟩

theorem ownerOf_schedule (h : ownerOf id kind payload = some (.schedule p)) :
    p.jobID = id := by
  cases kind <;> simp only [ownerOf, bind_eq_some_iff, reduceCtorEq] at h
  all_goals
    obtain ⟨q, hq, h⟩ := h
    split at h <;> cases h
  next hne => simp_all

theorem occurrenceStatus_pointer (hid : p.jobID ≠ "") (h : occurrenceStatus db p ≠ .superseded) :
    ∃ t ∈ db.schedules, t.id = p.scheduleID ∧ t.lastRunJobID = some p.jobID ∧
      (occurrenceStatus db p = t.lastRunStatus ∨ occurrenceStatus db p = .disabled) := by
  revert h
  fun_cases occurrenceStatus db p
  case case1 | case2 => exact fun h => absurd rfl h
  all_goals
    intro _
    have hfind : db.schedules.find? _ = some _ := ‹_›
    have hjob := (getD_eq_iff.1 (not_not.1 ‹_›)).resolve_right fun hempty => hid hempty.2.symm
    refine ⟨_, mem_of_find?_eq_some hfind, by simpa using find?_some hfind, hjob, ?_⟩
  · exact .inr rfl
  · exact .inl rfl

/-- A status that is still active is that of the record itself. -/
theorem namedStatus_of_active (hid : o.logicalID ≠ "") (h : ownerStatus db o = some st)
    (ha : st.isActive = true) : NamedStatus db o st := by
  cases o with
  | terminal p | action p | update p =>
    obtain ⟨r, hr, rfl⟩ := map_eq_some_iff.1 h
    exact ⟨r, mem_of_find?_eq_some hr, by simpa using find?_some hr, rfl⟩
  | schedule p =>
    have hst : occurrenceStatus db p = st := some.inj h
    obtain ⟨t, ht, htid, hjob, hcase⟩ := occurrenceStatus_pointer hid
      (by rw [hst]; rintro rfl; cases ha)
    rcases hcase with hlive | hdis
    · exact ⟨t, ht, htid, hjob, hlive.symm.trans hst⟩
    · rw [hst] at hdis
      rw [hdis] at ha
      cases ha

/-- Locking reads the status of the one record there is; only a queued occurrence of a
disabled schedule is read as something else. -/
theorem namedStatus_unique (hk : TablesKeyed db) (h : ownerStatus db o = some st)
    {st' : RunStatus} (hn : NamedStatus db o st') : st' = st ∨ (st' = .queued ∧ st = .disabled) := by
  cases o with
  | terminal p | action p | update p =>
    obtain ⟨r, hr, hnamed, rfl⟩ := hn
    obtain ⟨x, hx, rfl⟩ := map_eq_some_iff.1 h
    obtain ⟨hcommands, hactions, hupdates, -⟩ := hk
    obtain rfl : r = x :=
      Keyed.find?_eq (by assumption) (fun y _ hy => (of_decide_eq_true hy).1) hx hr hnamed.1
    exact .inl rfl
  | schedule p =>
    obtain ⟨t, ht, hid, hjob, rfl⟩ := hn
    cases h
    fun_cases occurrenceStatus db p
    case case1 hnone => exact absurd hid (by simpa using find?_eq_none.1 hnone t ht)
    all_goals
      obtain rfl : t = _ := hk.schedules.find?_eq (fun y _ hy => of_decide_eq_true hy) ‹_› ht hid
    case case2 hne => exact absurd (by rw [hjob, getD_some]) hne
    case case3 hdis =>
      simp only [Bool.and_eq_true, decide_eq_true_eq] at hdis
      exact .inr ⟨hdis.2, rfl⟩
    case case4 => exact .inl rfl

theorem settled_of_ownerStatus (hk : TablesKeyed db) (h : ownerStatus db o = some st)
    (ha : st.isActive = false) (hd : st ≠ .disabled) : Settled db o := by
  intro st' hn
  rcases namedStatus_unique hk h hn with rfl | ⟨-, he⟩
  · exact ha
  · exact absurd he hd

theorem settled_of_none (h : ownerStatus db o = none) : Settled db o := by
  intro st hn
  cases o with
  | terminal p | action p | update p =>
    obtain ⟨r, hr, hnamed, -⟩ := hn
    have hno := find?_eq_none.1 (map_eq_none_iff.1 h) r hr
    exact absurd hnamed (by simpa using hno)
  | schedule p => cases h

variable {issued issued' : List String} {taken : String → Prop}

theorem markRunning_effect (hk : TablesKeyed db) (hq : NamedStatus db o .queued) :
    Effect issued issued' taken db (markRunning db o) := by
  cases o with
  | terminal p =>
    obtain ⟨r, hr, hnamed, hst⟩ := hq
    refine updateCommands_effect fun x hx hid => ?_
    have hxr : x = r := hk.commands.eq hx hr ((of_decide_eq_true hid).trans hnamed.1.symm)
    exact .mk x .running x.output x.exitCode (.inl ⟨hxr ▸ hst, rfl⟩)
  | action p =>
    obtain ⟨r, hr, hnamed, hst⟩ := hq
    refine updateActionRuns_effect fun x hx hid => ?_
    have hxr : x = r := hk.actionRuns.eq hx hr ((of_decide_eq_true hid).trans hnamed.1.symm)
    exact .mk x .running x.output x.error (.inl ⟨hxr ▸ hst, rfl⟩)
  | update p =>
    obtain ⟨r, hr, hnamed, hst⟩ := hq
    refine updateUpdateRuns_effect fun x hx hid => ?_
    have hxr : x = r := hk.updateRuns.eq hx hr ((of_decide_eq_true hid).trans hnamed.1.symm)
    exact .mk x .running x.summary x.error (.inl ⟨hxr ▸ hst, rfl⟩)
  | schedule p =>
    obtain ⟨t, ht, hid, -, hst⟩ := hq
    refine updateSchedules_effect fun x hx hxid => ?_
    have hxt : x = t := hk.schedules.eq hx ht ((of_decide_eq_true hxid).trans hid.symm)
    exact .advance x _ rfl rfl (.inl ⟨hxt ▸ hst, rfl⟩)

theorem closeInterruptedScheduleChildren_effect (db : DB) (o : Owner) :
    Effect issued issued' taken db (closeInterruptedScheduleChildren db o) := by
  cases o with
  | schedule p => exact updateActionRuns_effect fun r _ _ => .mk r .failed r.output _ (.inr rfl)
  | terminal p | action p | update p => exact Effect.refl db

theorem closeInterruptedScheduleChildren_queue (db : DB) (o : Owner) :
    (closeInterruptedScheduleChildren db o).queue = db.queue := by
  cases o <;> rfl

variable {r : ActionResult}

theorem writeActionJobResult_ok (h : writeActionJobResult db r = .ok db') :
    r.status.finalJobStatus = true ∧ db' = updateActionRuns db (fun a => a.id = r.runID) fun a =>
        { a with status := r.status, output := GoStrings.trimSpace r.output,
                 error := GoStrings.trimSpace r.error } := by
  unfold writeActionJobResult at h
  split at h
  next hfin =>
    cases h
    exact ⟨hfin, rfl⟩
  · cases h

theorem writeActionJobResult_effect (h : writeActionJobResult db r = .ok db') :
    Effect issued issued' taken db db' := by
  obtain ⟨hfin, rfl⟩ := writeActionJobResult_ok h
  exact updateActionRuns_effect fun a _ _ =>
    .mk a r.status _ _ (.inr (finalJobStatus_inactive hfin))

theorem writeScheduleResult_ok {r : ScheduleExecutionResult}
    (h : writeScheduleResult db p r = .ok db') : r.status.finalScheduleStatus = true ∧ ∃ text,
      db' = updateSchedules (closeInterruptedScheduleChildren db (.schedule p))
        (fun t => t.id = p.scheduleID) fun t =>
          { t with lastRunStatus := r.status, lastError := text } := by
  unfold writeScheduleResult at h
  split at h
  next hfin =>
    obtain ⟨text, -, h⟩ := bind_eq_ok.1 h
    cases h
    exact ⟨hfin, text, rfl⟩
  · cases h

/-- The write that `writeResult` makes for each kind of record. -/
inductive ResultWrite (db : DB) : Owner → DB → Prop
  | terminal (p : CommandJob) (st : RunStatus) (output : String) (exitCode : Option ℤ)
      (hfin : st.finalJobStatus = true) :
      ResultWrite db (.terminal p) (updateCommands db (fun c => c.id = p.commandID) fun c =>
        { c with status := st, output := output, exitCode := exitCode })
  | action (p : ActionJob) (st : RunStatus) (output error : String)
      (hfin : st.finalJobStatus = true) :
      ResultWrite db (.action p) (updateActionRuns db (fun a => a.id = p.runID) fun a =>
        { a with status := st, output := output, error := error })
  | update (p : UpdateJob) (st : RunStatus) (summary error : String)
      (hfin : st.finalJobStatus = true) :
      ResultWrite db (.update p) (updateUpdateRuns db (fun u => u.id = p.runID) fun u =>
        { u with status := st, summary := summary, error := error })
  | schedule (p : ExecutionJob) (st : RunStatus) (text : String)
      (hfin : st.finalScheduleStatus = true) :
      ResultWrite db (.schedule p)
        (updateSchedules (closeInterruptedScheduleChildren db (.schedule p))
          (fun t => t.id = p.scheduleID) fun t => { t with lastRunStatus := st, lastError := text })

theorem writeResult_ok {result : JobExecutionResult} (h : writeResult db o result = .ok db') :
    ResultWrite db o db' := by
  revert h
  fun_cases writeResult db o result <;> intro h
  case case4 p r _ _ hfin =>
    cases h
    exact .terminal p r.status r.output r.exitCode hfin
  case case8 p r _ hid =>
    obtain ⟨hfin, rfl⟩ := writeActionJobResult_ok h
    have hrun : r.runID = p.runID := by tauto
    rw [hrun]
    exact .action p r.status _ _ hfin
  case case11 p r _ _ hfin =>
    cases h
    exact .update p r.status r.summary r.error hfin
  case case14 p r _ =>
    obtain ⟨hfin, text, rfl⟩ := writeScheduleResult_ok h
    exact .schedule p r.status text hfin
  all_goals cases h

variable (h : ResultWrite db o db')
include h

theorem ResultWrite.queue_eq : db'.queue = db.queue := by
  cases h <;> rfl

theorem ResultWrite.effect : Effect issued issued' taken db db' := by
  cases h with
  | terminal p st output exitCode hfin =>
    exact updateCommands_effect fun c _ _ => .mk c st _ _ (.inr (finalJobStatus_inactive hfin))
  | action p st output error hfin =>
    exact updateActionRuns_effect fun a _ _ => .mk a st _ _ (.inr (finalJobStatus_inactive hfin))
  | update p st summary error hfin =>
    exact updateUpdateRuns_effect fun u _ _ => .mk u st _ _ (.inr (finalJobStatus_inactive hfin))
  | schedule p st text hfin =>
    refine (closeInterruptedScheduleChildren_effect db _).trans (updateSchedules_effect fun t _ _ => ?_)
    exact .advance t _ rfl rfl (.inr (finalScheduleStatus_inactive hfin))

theorem ResultWrite.settled : Settled db' o := by
  intro st' hn
  cases h with
  | terminal p st output exitCode hfin | action p st output error hfin
  | update p st summary error hfin =>
    obtain ⟨r, hr, hnamed, rfl⟩ := hn
    obtain ⟨x, -, rfl⟩ := mem_updateWhere.1 hr
    split at hnamed
    next hx => simpa [hx] using finalJobStatus_inactive hfin
    next hx => exact absurd (decide_eq_true hnamed.1) hx
  | schedule p st text hfin =>
    obtain ⟨t, ht, hid, -, rfl⟩ := hn
    obtain ⟨x, -, rfl⟩ := mem_updateWhere.1 ht
    split at hid
    next hx => simpa [hx] using finalScheduleStatus_inactive hfin
    next hx => exact absurd (decide_eq_true hid) hx

end

section

/-- The record's id was generated, or its occurrence was queued, before now; so no write
from now on creates it. -/
def Established (issued : List String) (taken : String → Prop) : Owner → Prop
  | .terminal p => p.commandID ∈ issued
  | .action p => p.runID ∈ issued ∧ isScheduledRunID p.runID = false
  | .update p => p.runID ∈ issued
  | .schedule p => taken p.jobID

/-- The row is the same record, and it was waiting before if it is waiting now. -/
def SameCommand (r r' : CommandRow) : Prop :=
  (∀ p, CommandNamed p r' → CommandNamed p r) ∧ r'.id = r.id ∧
    (r'.status = .queued → r.status = .queued)

def SameAction (r r' : ActionRow) : Prop :=
  (∀ p, ActionNamed p r' → ActionNamed p r) ∧ r'.id = r.id ∧
    (r'.status = .queued → r.status = .queued)

def SameUpdate (r r' : UpdateRow) : Prop :=
  (∀ p, UpdateNamed p r' → UpdateNamed p r) ∧ r'.id = r.id ∧
    (r'.status = .queued → r.status = .queued)

def SameOccurrence (t t' : ScheduleRow) : Prop :=
  t'.id = t.id ∧ t'.lastRunJobID = t.lastRunJobID ∧
    (t'.lastRunStatus = .queued → t.lastRunStatus = .queued)

variable {issued issued' : List String} {taken : String → Prop} {db db' : DB} {o : Owner} {st : RunStatus}

theorem StatusMove.not_queued {a b : RunStatus} (h : StatusMove a b) : b ≠ .queued := by
  rintro rfl
  cases (h.active rfl).2

variable (h : Effect issued issued' taken db db')
include h

theorem Effect.command_origin {r' : CommandRow} (hr' : r' ∈ db'.commands)
    (ha : r'.status.isActive = true) (hid : r'.id ∈ issued) :
    ∃ r ∈ db.commands, (r.status.isActive = true ∧ r.id ∈ issued) ∧ SameCommand r r' := by
  refine origin (fun r => ⟨fun _ h => h, rfl, fun h => h⟩) ?_ ?_ ?_ h.commands hr' ⟨ha, hid⟩
  · rintro r₁ r₂ r₃ ⟨hn, hi, hq⟩ ⟨hn', hi', hq'⟩
    exact ⟨fun p hp => hn p (hn' p hp), hi'.trans hi, fun h => hq (hq' h)⟩
  · rintro r r' hrow ⟨hact, hiss⟩
    obtain ⟨status, output, exitCode, hmove⟩ := hrow
    have hwas := hmove.active hact
    refine ⟨⟨by rw [hwas.1]; rfl, hiss⟩, fun _ hp => hp, rfl, fun hq => absurd hq hmove.not_queued⟩
  · exact fun r hnew hq => hnew.2.1 hq.2

variable {r' : ActionRow}

theorem Effect.action_origin (hr' : r' ∈ db'.actionRuns) (ha : r'.status.isActive = true)
    (hid : r'.id ∈ issued) (hchild : isScheduledRunID r'.id = false) :
    ∃ r ∈ db.actionRuns, (r.status.isActive = true ∧ r.id ∈ issued ∧
      isScheduledRunID r.id = false) ∧ SameAction r r' := by
  refine origin (fun r => ⟨fun _ h => h, rfl, fun h => h⟩) ?_ ?_ ?_ h.actionRuns hr'
    ⟨ha, hid, hchild⟩
  · rintro r₁ r₂ r₃ ⟨hn, hi, hq⟩ ⟨hn', hi', hq'⟩
    exact ⟨fun p hp => hn p (hn' p hp), hi'.trans hi, fun h => hq (hq' h)⟩
  · rintro r r' hrow ⟨hact, hiss, hc⟩
    obtain ⟨status, output, error, hmove⟩ := hrow
    have hwas := hmove.active hact
    refine ⟨⟨by rw [hwas.1]; rfl, hiss, hc⟩, fun _ hp => hp, rfl,
      fun hq => absurd hq hmove.not_queued⟩
  · rintro r (hnew | hnew) hq
    · exact hnew.2.1 hq.2.1
    · rw [hq.2.2] at hnew
      cases hnew.2

theorem Effect.action_queued_origin (hr' : r' ∈ db'.actionRuns) (hq : r'.status = .queued)
    (hid : r'.id ∈ issued ∨ isScheduledRunID r'.id = true) :
    ∃ r ∈ db.actionRuns, r'.id = r.id ∧ r.status = .queued := by
  have horigin : ∃ r ∈ db.actionRuns, (r.status = .queued ∧
      (r.id ∈ issued ∨ isScheduledRunID r.id = true)) ∧ r'.id = r.id := by
    refine origin
      (Q := fun r => r.status = .queued ∧ (r.id ∈ issued ∨ isScheduledRunID r.id = true))
      (A := fun r r' => r'.id = r.id) (fun r => rfl) ?_ ?_ ?_ h.actionRuns hr' ⟨hq, hid⟩
    · intro r₁ r₂ r₃ h₁ h₂
      exact h₂.trans h₁
    · rintro r r' hrow ⟨hst, -⟩
      obtain ⟨status, output, error, hmove⟩ := hrow
      exact absurd hst hmove.not_queued
    rintro r (hnew | hnew) hold
    · rcases hold.2 with hin | hchild
      · exact hnew.2.1 hin
      · rw [hnew.2.2.2] at hchild
        cases hchild
    · rw [hnew.1] at hold
      cases hold.1
  obtain ⟨r, hr, hwas, hsame⟩ := horigin
  exact ⟨r, hr, hsame, hwas.1⟩

theorem Effect.update_origin {r' : UpdateRow} (hr' : r' ∈ db'.updateRuns)
    (ha : r'.status.isActive = true) (hid : r'.id ∈ issued) :
    ∃ r ∈ db.updateRuns, (r.status.isActive = true ∧ r.id ∈ issued) ∧ SameUpdate r r' := by
  refine origin (fun r => ⟨fun _ h => h, rfl, fun h => h⟩) ?_ ?_ ?_ h.updateRuns hr' ⟨ha, hid⟩
  · rintro r₁ r₂ r₃ ⟨hn, hi, hq⟩ ⟨hn', hi', hq'⟩
    exact ⟨fun p hp => hn p (hn' p hp), hi'.trans hi, fun h => hq (hq' h)⟩
  · rintro r r' hrow ⟨hact, hiss⟩
    obtain ⟨status, summary, error, hmove⟩ := hrow
    have hwas := hmove.active hact
    refine ⟨⟨by rw [hwas.1]; rfl, hiss⟩, fun _ hp => hp, rfl, fun hq => absurd hq hmove.not_queued⟩
  · exact fun r hnew hq => hnew.2.1 hq.2

variable {t' : ScheduleRow} {jobID : String}

theorem Effect.schedule_origin (ht' : t' ∈ db'.schedules) (ha : t'.lastRunStatus.isActive = true)
    (hjob : t'.lastRunJobID = some jobID) (hin : taken jobID) :
    ∃ t ∈ db.schedules, (t.lastRunStatus.isActive = true ∧ t.lastRunJobID = some jobID) ∧
      SameOccurrence t t' := by
  refine origin (fun t => ⟨rfl, rfl, fun h => h⟩) ?_ ?_ ?_ h.schedules ht' ⟨ha, hjob⟩
  · rintro t₁ t₂ t₃ ⟨hi, hj, hq⟩ ⟨hi', hj', hq'⟩
    exact ⟨hi'.trans hi, hj'.trans hj, fun h => hq (hq' h)⟩
  · rintro t t' hmove ⟨hact, hj⟩
    cases hmove with
    | edit hid hjob hst => exact ⟨⟨hst ▸ hact, hjob ▸ hj⟩, hid, hjob, fun hq => hst ▸ hq⟩
    | advance hid hjob hst =>
      have hwas := hst.active hact
      exact ⟨⟨by rw [hwas.1]; rfl, hjob ▸ hj⟩, hid, hjob, fun hq => absurd hq hst.not_queued⟩
    | release hid hjob hst =>
      rw [hjob] at hj
      cases hj
    | claim j hid hjob hst hfresh =>
      rw [hjob] at hj
      cases hj
      exact absurd hin hfresh
  · rintro t hnone ⟨-, hj⟩
    rw [hnone] at hj
    cases hj

theorem Effect.pointer_origin (ht' : t' ∈ db'.schedules) (hjob : t'.lastRunJobID = some jobID)
    (hin : taken jobID) :
    ∃ t ∈ db.schedules, t.lastRunJobID = some jobID ∧ t'.id = t.id := by
  refine origin (Q := fun t => t.lastRunJobID = some jobID)
    (A := fun t t' => t'.id = t.id) (fun t => rfl) ?_ ?_ ?_ h.schedules ht' hjob
  · intro t₁ t₂ t₃ h₁ h₂
    exact h₂.trans h₁
  · intro t t' hmove hj
    cases hmove with
    | edit hid hjob hst | advance hid hjob hst => exact ⟨hjob ▸ hj, hid⟩
    | release hid hjob hst =>
      rw [hjob] at hj
      cases hj
    | claim j hid hjob hst hfresh =>
      rw [hjob] at hj
      cases hj
      exact absurd hin hfresh
  · intro t hnone hj
    rw [hnone] at hj
    cases hj

/-- An established record that is active was active before, and queued if it is queued. -/
theorem Effect.namedStatus (ho : Established issued taken o) (hn : NamedStatus db' o st)
    (ha : st.isActive = true) :
    ∃ st₀, NamedStatus db o st₀ ∧ st₀.isActive = true ∧ (st = .queued → st₀ = .queued) := by
  cases o with
  | terminal p =>
    obtain ⟨r', hr', hnamed, rfl⟩ := hn
    have hid : r'.id ∈ issued := by
      rw [hnamed.1]
      exact ho
    obtain ⟨r, hr, hact, hsame⟩ := h.command_origin hr' ha hid
    exact ⟨r.status, ⟨r, hr, hsame.1 p hnamed, rfl⟩, hact.1, hsame.2.2⟩
  | action p =>
    obtain ⟨r', hr', hnamed, rfl⟩ := hn
    have hid : r'.id ∈ issued ∧ isScheduledRunID r'.id = false := by
      rw [hnamed.1]
      exact ho
    obtain ⟨r, hr, hact, hsame⟩ := h.action_origin hr' ha hid.1 hid.2
    exact ⟨r.status, ⟨r, hr, hsame.1 p hnamed, rfl⟩, hact.1, hsame.2.2⟩
  | update p =>
    obtain ⟨r', hr', hnamed, rfl⟩ := hn
    have hid : r'.id ∈ issued := by
      rw [hnamed.1]
      exact ho
    obtain ⟨r, hr, hact, hsame⟩ := h.update_origin hr' ha hid
    exact ⟨r.status, ⟨r, hr, hsame.1 p hnamed, rfl⟩, hact.1, hsame.2.2⟩
  | schedule p =>
    obtain ⟨t', ht', hid, hjob, rfl⟩ := hn
    obtain ⟨t, ht, hact, hsame⟩ := h.schedule_origin ht' ha hjob ho
    exact ⟨t.lastRunStatus, ⟨t, ht, hsame.1.symm.trans hid, hact.2, rfl⟩, hact.1, hsame.2.2⟩

theorem Effect.settled (ho : Established issued taken o) (hs : Settled db o) : Settled db' o := by
  intro st hn
  by_contra ha
  obtain ⟨st₀, hn₀, ha₀, -⟩ := h.namedStatus ho hn (by simpa using ha)
  rw [hs st₀ hn₀] at ha₀
  cases ha₀

end

end LabTether.BusinessRecords
