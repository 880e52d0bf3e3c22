import LabTether.ClaimFencing

/-!
At-most-once dispatch.
`BeginJobExecution` answers dispatch only for a record it finds queued, and moves it to
running in the same transaction; no record is queued twice. So over every interleaving of
calls, whatever answers are lost, a record is dispatched at most once, under however many
queue rows and lock tokens it is named. An occurrence is named by its job id: queue rows
are not purged here (`PurgeOldJobs` has no caller), so a job id is queued once.
-/
namespace LabTether.DispatchOnce

open Table Transaction Transition JobQueue BusinessRecords JobExecution RecordStore Hub List State RunStatus GoStrings

def Waiting (db : DB) : RecordKey → Prop
  | .command id => ∃ r ∈ db.commands, r.id = id ∧ r.status = .queued
  | .action id => ∃ r ∈ db.actionRuns, r.id = id ∧ r.status = .queued
  | .update id => ∃ r ∈ db.updateRuns, r.id = id ∧ r.status = .queued
  | .occurrence jobID => ∃ t ∈ db.schedules, t.lastRunJobID = some jobID ∧ t.lastRunStatus = .queued

/-- The key was generated, or the occurrence queued, before now. -/
def Known (s : State) : RecordKey → Prop
  | .command id => id ∈ s.issued
  | .action id => id ∈ s.issued ∨ isScheduledRunID id = true
  | .update id => id ∈ s.issued
  | .occurrence jobID => jobID ∈ s.db.queue.map JobRow.id

variable {o : Owner} {db : DB}

theorem namedStatus_waiting (h : NamedStatus db o .queued) : Waiting db (keyOf o) := by
  cases o with
  | terminal p | action p | update p =>
    obtain ⟨r, hr, hnamed, hst⟩ := h
    exact ⟨r, hr, hnamed.1, hst⟩
  | schedule p =>
    obtain ⟨t, ht, -, hjob, hst⟩ := h
    exact ⟨t, ht, hjob, hst⟩

variable {key : RecordKey}

section

def Keeps (op : Op) : Prop := ∀ olderThan, op ≠ .purgeOldJobs olderThan

theorem Keeps.not_purges {op : Op} (h : Keeps op) (r : JobRow) : ¬ op.Purges r := by
  cases op with
  | purgeOldJobs olderThan => exact absurd rfl (h olderThan)
  | _ => exact fun hp => hp

variable {s : State} {op : Op} (h : ClaimFencing.Inv s)
include h

theorem step_ids (hop : Keeps op) :
    s.db.queue.map JobRow.id ⊆ (step s op).db.queue.map JobRow.id := by
  intro id hid
  obtain ⟨r, hr, rfl⟩ := mem_map.1 hid
  rcases (h.effect op).queue.successor hr (hop.not_purges r) with hr' | ⟨r', hr', hm⟩
  · exact mem_map_of_mem hr'
  · rw [← hm.id_eq]
    exact mem_map_of_mem hr'

theorem step_known (hop : Keeps op) (hk : Known s key) : Known (step s op) key := by
  cases key with
  | command id | update id => exact (h.effect op).issued hk
  | action id => exact hk.imp_left fun hid => (h.effect op).issued hid
  | occurrence jobID => exact step_ids h hop hk

theorem step_waiting (hk : Known s key) (hw : Waiting (step s op).db key) : Waiting s.db key := by
  have he := (h.effect op).business
  cases key with
  | command id =>
    obtain ⟨r', hr', rfl, hst⟩ := hw
    obtain ⟨r, hr, -, -, hid, hq⟩ := he.command_origin hr' (by rw [hst]; rfl) hk
    exact ⟨r, hr, hid.symm, hq hst⟩
  | action id =>
    obtain ⟨r', hr', rfl, hst⟩ := hw
    obtain ⟨r, hr, hid, hq⟩ := he.action_queued_origin hr' hst hk
    exact ⟨r, hr, hid.symm, hq⟩
  | update id =>
    obtain ⟨r', hr', rfl, hst⟩ := hw
    obtain ⟨r, hr, -, -, hid, hq⟩ := he.update_origin hr' (by rw [hst]; rfl) hk
    exact ⟨r, hr, hid.symm, hq hst⟩
  | occurrence jobID =>
    obtain ⟨t', ht', hjob, hst⟩ := hw
    obtain ⟨t, ht, hact, -, -, hq⟩ := he.schedule_origin ht' (by rw [hst]; rfl) hjob hk
    exact ⟨t, ht, hact.2, hq hst⟩

theorem step_pointer {t' : ScheduleRow} {jobID : String} (ht' : t' ∈ (step s op).db.schedules)
    (hjob : t'.lastRunJobID = some jobID) :
    (∃ t ∈ s.db.schedules, t.lastRunJobID = some jobID ∧ t'.id = t.id) ∨
      (∃ claim, op = .claimSchedule claim ∧ t'.id = claim.scheduleID ∧
        jobID = claim.job.jobID ∧ jobID ∉ s.db.queue.map JobRow.id ∧
        jobID ∈ (step s op).db.queue.map JobRow.id) := by
  by_cases hop : ∃ claim, op = .claimSchedule claim
  · obtain ⟨claim, rfl⟩ := hop
    simp only [step] at ht' ⊢
    rcases hr : claimScheduledTaskExecution s.db claim with e | p
    · rw [hr] at ht'
      exact .inl ⟨t', ht', hjob, rfl⟩
    rw [hr] at ht'
    rcases claimScheduledTaskExecution_ok hr with ⟨-, hdb⟩ | ⟨-, -, queue, hins, hdb⟩
    · simp only [applied, hdb] at ht'
      exact .inl ⟨t', ht', hjob, rfl⟩
    simp only [applied, hdb] at ht' ⊢
    obtain ⟨hfresh, rfl⟩ := insertRow_eq_some.1 hins
    obtain ⟨t, ht, rfl⟩ := mem_updateWhere.1 ht'
    split at hjob
    next hc =>
      have hid : t.id = claim.scheduleID := (of_decide_eq_true hc).1
      cases hjob
      rw [if_pos hc]
      refine .inr ⟨claim, rfl, hid, rfl, hfresh, ?_⟩
      simp [occurrenceRow, newRow]
    next hc =>
      rw [if_neg hc]
      exact .inl ⟨t, ht, hjob, rfl⟩
  · -- no other operation claims an occurrence, so every job id counts as taken
    have he : StepEffect (fun _ => True) s (step s op) op.Adds op.Purges :=
      step_effect h.keyed h.tables fun claim hc => absurd ⟨claim, hc⟩ hop
    exact .inl (he.business.pointer_origin ht' hjob trivial)

end

section

structure Inv (s : State) : Prop where
  fence : ClaimFencing.Inv s
  commands : ∀ r ∈ s.db.commands, r.id ∈ s.issued
  actionRuns : ∀ r ∈ s.db.actionRuns, r.id ∈ s.issued ∨ isScheduledRunID r.id = true
  updateRuns : ∀ r ∈ s.db.updateRuns, r.id ∈ s.issued
  pointers : ∀ t ∈ s.db.schedules, ∀ j, t.lastRunJobID = some j → j ∈ s.db.queue.map JobRow.id
  pointer_unique : ∀ t ∈ s.db.schedules, ∀ t' ∈ s.db.schedules, ∀ j,
    t.lastRunJobID = some j → t'.lastRunJobID = some j → t.id = t'.id
  dispatched : ∀ key, .dispatched key ∈ s.log → Known s key ∧ ¬ Waiting s.db key
  once : ∀ key, s.log.count (.dispatched key) ≤ 1

variable {s : State} {op : Op} {st : RunStatus} (h : Inv s)
include h

theorem Inv.known_of_named (hn : NamedStatus s.db o st) :
    Known s (keyOf o) := by
  cases o with
  | terminal p =>
    obtain ⟨r, hr, hnamed, -⟩ := hn
    have hknown := h.commands r hr
    rw [hnamed.1] at hknown
    exact hknown
  | action p =>
    obtain ⟨r, hr, hnamed, -⟩ := hn
    have hknown := h.actionRuns r hr
    rw [hnamed.1] at hknown
    exact hknown
  | update p =>
    obtain ⟨r, hr, hnamed, -⟩ := hn
    have hknown := h.updateRuns r hr
    rw [hnamed.1] at hknown
    exact hknown
  | schedule p =>
    obtain ⟨t, ht, -, hjob, -⟩ := hn
    exact h.pointers t ht p.jobID hjob

theorem Inv.not_waiting_of_named (hn : NamedStatus s.db o st) (hst : st ≠ .queued) :
    ¬ Waiting s.db (keyOf o) := by
  intro hw
  apply hst
  cases o with
  | terminal p | action p | update p =>
    obtain ⟨r, hr, hnamed, rfl⟩ := hn
    obtain ⟨x, hx, hid, hq⟩ := hw
    obtain ⟨hcommands, hactions, hupdates, -⟩ := h.fence.tables
    obtain rfl : x = r := Keyed.eq (by assumption) hx hr (hid.trans hnamed.1.symm)
    exact hq
  | schedule p =>
    obtain ⟨t, ht, -, hjob, rfl⟩ := hn
    obtain ⟨x, hx, hxjob, hq⟩ := hw
    have hxt : x = t :=
      h.fence.tables.schedules.eq hx ht (h.pointer_unique x hx t ht p.jobID hxjob hjob)
    exact hxt ▸ hq

theorem Inv.not_waiting_markRunning (hq : NamedStatus s.db o .queued) :
    ¬ Waiting (markRunning s.db o) (keyOf o) := by
  intro hw
  cases o with
  | terminal p | action p | update p =>
    obtain ⟨r, hr, hid, hst⟩ := hw
    obtain ⟨x, hx, rfl⟩ := mem_updateWhere.1 hr
    split at hst
    · cases hst
    next hne =>
      rw [if_neg hne] at hid
      exact hne (decide_eq_true hid)
  | schedule p =>
    obtain ⟨t, ht, hjob, hst⟩ := hw
    obtain ⟨y, hy, hyid, hyjob, -⟩ := hq
    obtain ⟨x, hx, rfl⟩ := mem_updateWhere.1 ht
    split at hst
    · cases hst
    next hne =>
      rw [if_neg hne] at hjob
      have hxid : x.id = y.id := h.pointer_unique x hx y hy p.jobID hjob hyjob
      exact hne (decide_eq_true (hxid.trans hyid))

variable {job : Job} {now : ℕ} {ack : Ack}

theorem beginAnswer_dispatch (ha : (beginAnswer s job now ack).1 = .ok true) :
    ∃ o, ownerOf job.id job.kind job.payload = some o ∧ NamedStatus s.db o .queued ∧
      ¬ Waiting (beginAnswer s job now ack).2 (keyOf o) := by
  have hok := commit_eq_ok ha
  obtain ⟨r, b, -, -, hb, hcase⟩ := beginJobExecution_ok hok
  obtain ⟨howner, hstatus⟩ := lockJobBusiness_ok.1 hb
  rcases hcase with ⟨-, hq, hdb⟩ | ⟨hfalse, -⟩
  · rw [hq] at hstatus
    have hnamed := namedStatus_of_active (ownerOf_logicalID howner) hstatus rfl
    refine ⟨b.owner, howner, hnamed, ?_⟩
    change ¬ Waiting (commit ack Err.database s.db (beginJobExecution s.db job now)).2 _
    rw [hdb]
    exact h.not_waiting_markRunning hnamed
  · cases hfalse

theorem beginEvents_dispatched
    (hev : .dispatched key ∈ dispatchEvents job (beginAnswer s job now ack).1) :
    (dispatchEvents job (beginAnswer s job now ack).1).count (.dispatched key) = 1 ∧
      (Known s key ∧ Waiting s.db key) ∧ ¬ Waiting (beginAnswer s job now ack).2 key := by
  rcases ha : (beginAnswer s job now ack).1 with e | dispatch
  · rw [ha] at hev
    cases hev
  cases dispatch
  · rw [ha] at hev
    cases hev
  obtain ⟨o, howner, hnamed, hnow⟩ := beginAnswer_dispatch h ha
  rw [ha] at hev
  simp only [dispatchEvents, howner, mem_singleton, Event.dispatched.injEq] at hev ⊢
  subst hev
  exact ⟨count_singleton_self, ⟨h.known_of_named hnamed, namedStatus_waiting hnamed⟩, hnow⟩

omit h in
theorem mem_childEvents {claim : Job} {target : String} {e : Except Err ActionJob} {ev : Event}
    (h : ev ∈ childEvents claim target e) :
    (∃ child, e = .ok child) ∧ ev = .childStarted claim.id target := by
  cases e with
  | error e => cases h
  | ok child => exact ⟨⟨child, rfl⟩, mem_singleton.1 h⟩

theorem step_log_dispatched (op : Op) : ∃ events, (step s op).log = s.log ++ events ∧
      ∀ key, .dispatched key ∈ events → events.count (.dispatched key) = 1 ∧
        (Known s key ∧ Waiting s.db key) ∧ ¬ Waiting (step s op).db key := by
  by_cases hop : op.Authorises = false
  · exact ⟨[], (step_log_eq hop).trans (append_nil _).symm, by simp⟩
  cases op with
  | beginJob job now ack => exact ⟨_, rfl, fun key hev => beginEvents_dispatched h hev⟩
  | startChild claim target unique now ack =>
    simp only [step, withNew]
    split
    · exact ⟨[], (append_nil _).symm, by simp⟩
    · refine ⟨_, rfl, fun key hev => ?_⟩
      rcases mem_childEvents hev with ⟨-, hkey⟩
      cases hkey
  | _ => exact absurd rfl hop

theorem Inv.step_dispatched (hop : Keeps op) (key : RecordKey) :
    (.dispatched key ∈ (step s op).log → Known (step s op) key ∧ ¬ Waiting (step s op).db key) ∧
      (step s op).log.count (.dispatched key) ≤ 1 := by
  obtain ⟨events, hlog, hnew⟩ := step_log_dispatched h op
  rw [hlog, count_append]
  by_cases hev : .dispatched key ∈ events
  · obtain ⟨hcount, ⟨hknown, hwas⟩, hnow⟩ := hnew key hev
    refine ⟨fun _ => ⟨step_known h.fence hop hknown, hnow⟩, ?_⟩
    have hzero : s.log.count (.dispatched key) = 0 := by
      rw [count_eq_zero]
      exact fun hmem => (h.dispatched key hmem).2 hwas
    omega
  · have hzero : events.count (.dispatched key) = 0 := count_eq_zero.2 hev
    have honce := h.once key
    refine ⟨fun hmem => ?_, by omega⟩
    rcases mem_append.1 hmem with hold | hmem
    · obtain ⟨hknown, hnot⟩ := h.dispatched key hold
      exact ⟨step_known h.fence hop hknown, fun hw => hnot (step_waiting h.fence hknown hw)⟩
    · exact absurd hmem hev

theorem step_inv (hop : Keeps op) : Inv (step s op) := by
  have he := h.fence.effect op
  refine ⟨ClaimFencing.step_inv h.fence op, ?_, ?_, ?_, ?_, ?_, ?_, ?_⟩
  · refine he.business.commands.forall_mem (I := fun r => r.id ∈ (step s op).issued) ?_
      (fun r hnew => hnew.2.2) fun r hr => he.issued (h.commands r hr)
    intro r r' hid hmove
    cases hmove
    exact hid
  · refine he.business.actionRuns.forall_mem
      (I := fun r => r.id ∈ (step s op).issued ∨ isScheduledRunID r.id = true) ?_ ?_
      fun r hr => (h.actionRuns r hr).imp_left fun hid => he.issued hid
    · intro r r' hid hmove
      cases hmove
      exact hid
    · rintro r (hnew | hnew)
      · exact .inl hnew.2.2.1
      · exact .inr hnew.2
  · refine he.business.updateRuns.forall_mem (I := fun r => r.id ∈ (step s op).issued) ?_
      (fun r hnew => hnew.2.2) fun r hr => he.issued (h.updateRuns r hr)
    intro r r' hid hmove
    cases hmove
    exact hid
  · intro t' ht' j hjob
    rcases step_pointer h.fence ht' hjob with ⟨t, ht, hj, -⟩ | ⟨claim, -, -, -, -, hin⟩
    · exact step_ids h.fence hop (h.pointers t ht j hj)
    · exact hin
  · intro t₁ ht₁ t₂ ht₂ j hj₁ hj₂
    -- the two rows kept the pointer, or one of them just claimed it
    rcases step_pointer h.fence ht₁ hj₁ with ⟨x, hx, hxj, hxid⟩ | ⟨claim, hc, hid, -, hnot, -⟩
    · rcases step_pointer h.fence ht₂ hj₂ with ⟨y, hy, hyj, hyid⟩ | ⟨claim, -, -, -, hnot, -⟩
      · exact hxid.trans ((h.pointer_unique x hx y hy j hxj hyj).trans hyid.symm)
      · exact absurd (h.pointers x hx j hxj) hnot
    rcases step_pointer h.fence ht₂ hj₂ with ⟨y, hy, hyj, -⟩ | ⟨claim', hc', hid', -⟩
    · exact absurd (h.pointers y hy j hyj) hnot
    · rw [hc] at hc'
      cases hc'
      exact hid.trans hid'.symm
  · exact fun key => (h.step_dispatched hop key).1
  · exact fun key => (h.step_dispatched hop key).2

omit h in
theorem init_inv : Inv init := by
  refine ⟨ClaimFencing.init_inv, ?_, ?_, ?_, ?_, ?_, ?_, ?_⟩
  all_goals simp [init, DB.empty]

variable {ops : List Op}

theorem run_inv (hops : ∀ op ∈ ops, Keeps op) : Inv (run step s ops) :=
  run_invariant step Inv (fun _ _ hop hs => step_inv hs hop) h hops

/-- A known record that is not waiting is never dispatched again. -/
theorem run_count (hknown : Known s key) (hnot : ¬ Waiting s.db key)
    (hops : ∀ op ∈ ops, Keeps op) :
    (run step s ops).log.count (.dispatched key) = s.log.count (.dispatched key) := by
  induction ops generalizing s with
  | nil => rfl
  | cons op ops ih =>
    have hop : Keeps op := hops op (.head _)
    have hrest := ih (step_inv h hop) (step_known h.fence hop hknown)
      (fun hw => hnot (step_waiting h.fence hknown hw)) fun o ho => hops o (.tail _ ho)
    rw [run_cons, hrest]
    obtain ⟨events, hlog, hnew⟩ := step_log_dispatched h op
    rw [hlog, count_append, Nat.add_eq_left, count_eq_zero]
    exact fun hev => hnot (hnew key hev).2.1.2

end

/-- The record was closed as interrupted, with its outcome unknown. -/
def Interrupted (db : DB) : Owner → Prop
  | .terminal p => ∃ r ∈ db.commands, CommandNamed p r ∧ r.status = .failed ∧
      r.output = interruptedJobOutcome
  | .action p => ∃ r ∈ db.actionRuns, ActionNamed p r ∧ r.status = .failed ∧
      r.error = interruptedJobOutcome
  | .update p => ∃ r ∈ db.updateRuns, UpdateNamed p r ∧ r.status = .failed ∧
      r.error = interruptedJobOutcome
  | .schedule p => ∃ t ∈ db.schedules, t.id = p.scheduleID ∧ t.lastRunJobID = some p.jobID ∧
      t.lastRunStatus = .failed ∧ t.lastError = interruptedJobOutcome

theorem interrupted_completeLockedJob {jobID : String} {now : ℕ} :
    Interrupted (completeLockedJob db jobID now) o ↔ Interrupted db o := by
  cases o <;> rfl

theorem truncate_interruptedJobOutcome :
    truncateScheduledTaskError interruptedJobOutcome = .ok interruptedJobOutcome := by
  decide +kernel

theorem trimSpace_interruptedJobOutcome :
    trimSpace interruptedJobOutcome = interruptedJobOutcome := by
  decide +kernel

theorem writeResult_interrupted (db : DB) (o : Owner) (hn : NamedStatus db o .running) :
    ∃ db', writeResult db o (interruptedResult o) = .ok db' ∧ Interrupted db' o := by
  cases o with
  | terminal p =>
    obtain ⟨r, hr, hnamed, -⟩ := hn
    have hwrite : writeResult db (.terminal p) (interruptedResult (.terminal p)) =
        .ok (updateCommands db (fun c => c.id = p.commandID) fun c =>
          { c with status := .failed, output := interruptedJobOutcome, exitCode := none }) := by
      simp [writeResult, interruptedResult, failedResult, JobExecutionResult.count,
        finalJobStatus]
    refine ⟨_, hwrite, _, updateWhere_mem hr (decide_eq_true hnamed.1), ?_⟩
    exact ⟨hnamed, rfl, rfl⟩
  | action p =>
    obtain ⟨r, hr, hnamed, -⟩ := hn
    have hwrite : writeResult db (.action p) (interruptedResult (.action p)) =
        .ok (updateActionRuns db (fun a => a.id = p.runID) fun a =>
          { a with status := .failed, output := trimSpace "",
                   error := trimSpace interruptedJobOutcome }) := by
      simp [writeResult, interruptedResult, failedResult, JobExecutionResult.count,
        writeActionJobResult, finalJobStatus]
    refine ⟨_, hwrite, _, updateWhere_mem hr (decide_eq_true hnamed.1), ?_⟩
    exact ⟨hnamed, rfl, trimSpace_interruptedJobOutcome⟩
  | update p =>
    obtain ⟨r, hr, hnamed, -⟩ := hn
    have hwrite : writeResult db (.update p) (interruptedResult (.update p)) =
        .ok (updateUpdateRuns db (fun u => u.id = p.runID) fun u =>
          { u with status := .failed, summary := "", error := interruptedJobOutcome }) := by
      simp [writeResult, interruptedResult, failedResult, JobExecutionResult.count,
        finalJobStatus]
    refine ⟨_, hwrite, _, updateWhere_mem hr (decide_eq_true hnamed.1), ?_⟩
    exact ⟨hnamed, rfl, rfl⟩
  | schedule p =>
    obtain ⟨t, ht, hid, hjob, -⟩ := hn
    have hwrite : writeResult db (.schedule p) (interruptedResult (.schedule p)) =
        .ok (updateSchedules (closeInterruptedScheduleChildren db (.schedule p))
          (fun t => t.id = p.scheduleID) fun t =>
            { t with lastRunStatus := .failed, lastError := interruptedJobOutcome }) := by
      change (truncateScheduledTaskError interruptedJobOutcome >>= _) = _
      rw [truncate_interruptedJobOutcome]
      rfl
    refine ⟨_, hwrite, _, updateWhere_mem ht (decide_eq_true hid), ?_⟩
    exact ⟨hid, hjob, rfl, rfl⟩

/-- Redelivery of a record that is already running: it is closed as interrupted, its queue
row is completed, and nothing is dispatched. -/
theorem begin_running {job : Job} {b : JobBusiness} (now : ℕ)
    (hclaim : lockJobClaim db job false = .ok ()) (hb : lockJobBusiness db job = .ok b)
    (hst : b.status = .running) :
    ∃ db', beginJobExecution db job now = .ok (false, db') ∧ Interrupted db' b.owner ∧
      ∀ r ∈ db'.queue, r.id = job.id → r.status = .completed := by
  obtain ⟨howner, hstatus⟩ := lockJobBusiness_ok.1 hb
  rw [hst] at hstatus
  have hnamed := namedStatus_of_active (ownerOf_logicalID howner) hstatus rfl
  obtain ⟨mid, hwrite, hint⟩ := writeResult_interrupted db b.owner hnamed
  refine ⟨completeLockedJob mid job.id now, ?_, ?_, ?_⟩
  · unfold beginJobExecution
    rw [hclaim, ok_bind, hb, ok_bind, if_neg (by rw [hst]; decide)]
    unfold closeUndispatched
    rw [if_neg (by rw [hst]; decide), if_pos hst, hwrite, ok_bind]
  · exact interrupted_completeLockedJob.2 hint
  · intro r hr hid
    obtain ⟨x, hx, rfl⟩ := mem_updateWhere.1 hr
    split at hid
    next hxid =>
      rw [if_pos hxid]
      rfl
    next hxid => exact absurd (decide_eq_true hid) hxid

/-- At-most-once dispatch, over every interleaving of calls: each terminal command, action
run, update run and schedule occurrence is dispatched at most once, and one that is found
running is closed as interrupted and not dispatched from then on. -/
theorem dispatch_at_most_once (ops : List Op) (hops : ∀ op ∈ ops, Keeps op) :
    let s := run step init ops
    (∀ key, s.log.count (.dispatched key) ≤ 1) ∧
    ∀ job now b, lockJobClaim s.db job false = .ok () → lockJobBusiness s.db job = .ok b →
      b.status = .running →
      (∃ db', beginJobExecution s.db job now = .ok (false, db') ∧ Interrupted db' b.owner ∧
        ∀ r ∈ db'.queue, r.id = job.id → r.status = .completed) ∧
      ∀ more, (∀ op ∈ more, Keeps op) → (run step s more).log.count (.dispatched (keyOf b.owner)) =
          s.log.count (.dispatched (keyOf b.owner)) := by
  intro s
  have hinv : Inv s := run_inv init_inv hops
  refine ⟨hinv.once, ?_⟩
  intro job now b hclaim hb hst
  refine ⟨begin_running now hclaim hb hst, fun more hmore => ?_⟩
  obtain ⟨howner, hstatus⟩ := lockJobBusiness_ok.1 hb
  rw [hst] at hstatus
  have hnamed := namedStatus_of_active (ownerOf_logicalID howner) hstatus rfl
  refine run_count hinv (hinv.known_of_named hnamed) ?_ hmore
  exact hinv.not_waiting_of_named hnamed (by decide)

def sampleCommand : CommandJob :=
  ⟨"job_1", "sess_1", "cmd_1", "owner", "nas", "uptime", "structured"⟩

def samplePayload : Payload := ⟨"", some sampleCommand, none, none, none⟩

/-- A worker's copy of the sample queue row under a token. -/
def sampleJob (token : String) : Job where
  id := "jq_1"
  kind := .terminalCommand
  status := .processing
  payload := samplePayload
  attempts := 1
  maxAttempts := 5
  error := ""
  createdAt := 1
  updatedAt := 1
  availableAt := 1
  lockedAt := some 1
  completedAt := none
  lockToken := token

/-- A command is dispatched, its worker stops, and the row is recovered and redelivered. -/
def redelivery : List Op := [
  .addCommand "1" "sess_1" "owner" "nas" "uptime" "structured",
  .enqueue "1" .terminalCommand samplePayload 5 1,
  .claim "1" 2 [],
  .beginJob (sampleJob "jqlock_1") 2 .delivered,
  .recoverStaleClaims 100 10 [] [] .delivered,
  .claim "2" 2000000 [],
  .beginJob (sampleJob "jqlock_2") 2000000 .delivered]

theorem redelivery_keeps : ∀ op ∈ redelivery, Keeps op := by
  simp [redelivery, Keeps]

theorem dispatch_at_most_once_redelivery :
    (run step init redelivery).log = [.dispatched (.command "cmd_1")] ∧
      ∀ key, (run step init redelivery).log.count (.dispatched key) ≤ 1 :=
  ⟨by decide +kernel, (dispatch_at_most_once redelivery redelivery_keeps).1⟩

/-- An occurrence is queued and belongs to one schedule; a dispatched record never waits again. -/
theorem occurrence_of_one_schedule (ops : List Op) (hops : ∀ op ∈ ops, Keeps op) :
    let s := run step init ops
    (∀ t ∈ s.db.schedules, ∀ j, t.lastRunJobID = some j → j ∈ s.db.queue.map JobRow.id ∧
      ∀ t' ∈ s.db.schedules, t'.lastRunJobID = some j → t.id = t'.id) ∧
    ∀ key, .dispatched key ∈ s.log → ¬ Waiting s.db key := by
  intro s
  have h : Inv s := run_inv init_inv hops
  refine ⟨fun t ht j hj => ⟨h.pointers t ht j hj, fun t' ht' => h.pointer_unique t ht t' ht' j hj⟩, ?_⟩
  exact fun key hkey => (h.dispatched key hkey).2

theorem occurrence_of_one_schedule_redelivery :
    ¬ Waiting (run step init redelivery).db (.command "cmd_1") :=
  (occurrence_of_one_schedule _ redelivery_keeps).2 _ (by decide +kernel)

end LabTether.DispatchOnce
