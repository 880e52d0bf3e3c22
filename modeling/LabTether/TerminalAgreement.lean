import LabTether.ClaimFencing

/-!
Agreement of the queue with the business tables.
A row leaves the queue, completed or dead-lettered, in the transaction that closes its
record, so no finished job leaves a record queued or running. Two things are asked of the
callers: `Complete` is not called on its own, and a job is enqueued for a record whose id
has been generated. Purging finished rows does no harm here.
-/
namespace LabTether.TerminalAgreement

open Table Transaction JobQueue BusinessRecords JobExecution RecordStore Hub List

/-- The id of the record was generated, not chosen by the request. -/
def Generated (issued : List String) : Owner → Prop
  | .terminal p => p.commandID ∈ issued
  | .action p => p.runID ∈ issued ∧ isScheduledRunID p.runID = false
  | .update p => p.runID ∈ issued
  | .schedule _ => True

instance (issued : List String) : DecidablePred (Generated issued)
  | .terminal p => inferInstanceAs (Decidable (p.commandID ∈ issued))
  | .action p => inferInstanceAs (Decidable (p.runID ∈ issued ∧ isScheduledRunID p.runID = false))
  | .update p => inferInstanceAs (Decidable (p.runID ∈ issued))
  | .schedule _ => inferInstanceAs (Decidable True)

def submitted : Op → Option Owner
  | .enqueue unique kind payload _ _ => ownerOf (idgenNew "jq" unique) kind payload
  | _ => none

/-- How the rest of the hub uses the queue. -/
def Admissible (s : State) (op : Op) : Prop :=
  (∀ jobID token now, op ≠ .complete jobID token now) ∧ ∀ o ∈ submitted op, Generated s.issued o

structure Inv (s : State) : Prop where
  fence : ClaimFencing.Inv s
  generated : ∀ r ∈ s.db.queue, ∀ o, ownerOf r.id r.kind r.payload = some o → Generated s.issued o
  agrees : ∀ r ∈ s.db.queue, r.status.isTerminal = true →
    ∀ o, ownerOf r.id r.kind r.payload = some o → Settled s.db o

variable {o : Owner}

theorem Generated.mono {issued issued' : List String} (h : Generated issued o)
    (hsub : issued ⊆ issued') : Generated issued' o := by
  cases o with
  | terminal p | update p => exact hsub h
  | action p => exact ⟨hsub h.1, h.2⟩
  | schedule p => trivial

theorem Inv.established {s : State} (h : Inv s) {r : JobRow} (hr : r ∈ s.db.queue)
    (ho : ownerOf r.id r.kind r.payload = some o) :
    Established s.issued (· ∈ s.db.queue.map JobRow.id) o := by
  have hgen := h.generated r hr o ho
  cases o with
  | terminal p | action p | update p => exact hgen
  | schedule p =>
    have hid : p.jobID = r.id := ownerOf_schedule ho
    change p.jobID ∈ s.db.queue.map JobRow.id
    rw [hid]
    exact mem_map_of_mem hr

section

variable {db db' : DB}

theorem settled_of_tables (hc : db'.commands = db.commands)
    (ha : db'.actionRuns = db.actionRuns) (hu : db'.updateRuns = db.updateRuns)
    (hs : db'.schedules = db.schedules) (h : Settled db o) : Settled db' o := by
  intro st hn
  apply h st
  cases o with
  | terminal p => simpa [NamedStatus, hc] using hn
  | action p => simpa [NamedStatus, ha] using hn
  | update p => simpa [NamedStatus, hu] using hn
  | schedule p => simpa [NamedStatus, hs] using hn

theorem finalizer_settled (hk : TablesKeyed db) {faults : List String} {job : Job}
    (h : finalizer faults db job = .ok db')
    (ho : ownerOf job.id job.kind job.payload = some o) : Settled db' o := by
  rcases finalizeDeadJobInTransaction_ok (finalizer_ok h) with ⟨hnone, rfl⟩ | ⟨b, hb, hclose⟩
  · exact settled_of_none (hnone o ho)
  obtain ⟨howner, hst⟩ := lockJobBusiness_ok.1 hb
  rw [ho] at howner
  cases howner
  exact hclose.settled hk hst

theorem mem_completeLockedJob {jobID : String} {now : ℕ} {r' : JobRow}
    (h : r' ∈ (completeLockedJob db jobID now).queue) :
    r' ∈ db.queue ∨ ∃ r ∈ db.queue, r.id = jobID ∧ r' = completeRow now r := by
  obtain ⟨r, hr, rfl⟩ := mem_updateWhere.1 h
  by_cases hid : r.id = jobID
  · exact .inr ⟨r, hr, hid, by simp [hid]⟩
  · exact .inl (by simpa [hid] using hr)

/-- A transaction that completes its job closes the record of that job. -/
theorem close_settled (hk : TablesKeyed db) (hkey : Keyed JobRow.id db.queue) {job : Job}
    {b : JobBusiness} {mid : DB} {now : ℕ} {r r' : JobRow} (hr : r ∈ db.queue)
    (hm : ClaimMatches job false r) (hb : lockJobBusiness db job = .ok b) (hclose : Close db b mid)
    (hr' : r' ∈ (completeLockedJob mid job.id now).queue) :
    r' ∈ db.queue ∨ ∀ o, ownerOf r'.id r'.kind r'.payload = some o →
      Settled (completeLockedJob mid job.id now) o := by
  rcases mem_completeLockedJob hr' with hold | ⟨x, hx, hid, rfl⟩
  · exact .inl (hclose.queue_eq ▸ hold)
  refine .inr fun o ho => ?_
  rw [hclose.queue_eq] at hx
  have hxr : x = r := hkey.eq hx hr (hid.trans hm.1.symm)
  subst hxr
  obtain ⟨howner, hst⟩ := lockJobBusiness_ok.1 hb
  obtain ⟨hxid, -, -, hkind, hpay⟩ := hm
  change ownerOf x.id x.kind x.payload = some o at ho
  rw [hxid, hkind, hpay, howner] at ho
  cases ho
  exact settled_of_tables rfl rfl rfl rfl (hclose.settled hk hst)

end

section

variable {s : State} {op : Op} {r' : JobRow} {now : ℕ} {queue : List JobRow} {queue' : List JobRow}

theorem recoverBatch_ended {cutoff : ℕ} {locked : List String}
    (h : recoverBatch now (expired queue cutoff locked) queue = .ok queue') (hr' : r' ∈ queue')
    (hend : r'.status.isTerminal = true) :
    r' ∈ queue ∨ scanJob r' ∈ deadJobs (expired queue cutoff locked) queue' := by
  obtain ⟨hmap, hall⟩ := mapM_eq_ok h
  have hmem := hr'
  rw [hmap] at hmem
  obtain ⟨r, hr, rfl⟩ := mem_map.1 hmem
  obtain ⟨x, hx⟩ := hall r hr
  simp only [hx, Except.toOption, Option.getD_some] at hr' hend ⊢
  split at hx
  next hid =>
    refine .inr (mem_map_of_mem (mem_filter.2 ⟨hr', ?_⟩))
    unfold recoverRow at hx
    split at hx
    · cases hx
      exact Bool.and_eq_true_iff.2 ⟨decide_eq_true hid, rfl⟩
    · obtain ⟨delay, -, hx⟩ := bind_eq_ok.1 hx
      cases hx
      cases hend
  · cases hx
    exact .inl hr

/-- Recovery runs the finalizer of every job it dead-letters, and none of them reopens the
record of another. -/
theorem recover_closed (hk : TablesKeyed s.db) {staleClaimAt : ℕ} {locked faults : List String}
    {dead : List Job} {db' : DB}
    (hok : recoverStaleClaims (finalizer faults) s.db now staleClaimAt locked = .ok (dead, db'))
    (hr' : r' ∈ db'.queue) (hend : r'.status.isTerminal = true) :
    r' ∈ s.db.queue ∨ ∀ o, ownerOf r'.id r'.kind r'.payload = some o →
      Established s.issued (· ∈ s.db.queue.map JobRow.id) o → Settled db' o := by
  rcases recoverStaleClaims_ok hok with ⟨-, rfl⟩ | ⟨ids, queue, rfl, hbatch, rfl, hfold⟩
  · exact .inl hr'
  let taken : String → Prop := (· ∈ s.db.queue.map JobRow.id)
  have heffect : ∀ x job x', finalizer faults x job = .ok x' →
      Effect s.issued s.issued taken x x' := fun x job x' hx => finalizer_effect hx
  rw [finalizeAll_queue hfold] at hr'
  rcases recoverBatch_ended hbatch hr' hend with hold | hdead
  · exact .inl hold
  refine .inr ?_
  refine foldlM_forall TablesKeyed (fun job x => ∀ o, ownerOf job.id job.kind job.payload =
    some o → Established s.issued taken o → Settled x o) ?_ ?_ (hk.withQueue queue)
    hfold (scanJob r') hdead
  · intro x job x' _ hx hfin
    exact ⟨(heffect x job x' hfin).tablesKeyed hx, fun o ho _ => finalizer_settled hx hfin ho⟩
  · intro x job x' other _ hother hfin o ho hest
    exact (heffect x job x' hfin).settled hest (hother o ho hest)

theorem fail_closed (hk : TablesKeyed s.db) {jobID token errMsg : String}
    {faults : List String} {db' : DB}
    (hok : fail (finalizer faults) s.db jobID token errMsg now = .ok ((), db'))
    (hr' : r' ∈ db'.queue) (hend : r'.status.isTerminal = true) :
    r' ∈ s.db.queue ∨ ∀ o, ownerOf r'.id r'.kind r'.payload = some o → Settled db' o := by
  obtain ⟨r, x, -, -, hfail, mid, rfl, hfin⟩ := fail_ok hok
  have hcases : r' ∈ s.db.queue ∨ r' = x := by
    have hqueue : r' ∈ updateWhere (fun y => HoldsClaim jobID token y) (fun _ => x) s.db.queue := by
      split at hfin
      · rw [finalizer_queue hfin] at hr'
        exact hr'
      · rw [hfin] at hr'
        exact hr'
    obtain ⟨y, hy, rfl⟩ := mem_updateWhere.1 hqueue
    split
    · exact .inr rfl
    · exact .inl hy
  rcases hcases with hold | rfl
  · exact .inl hold
  refine .inr fun o ho => ?_
  have hdead : r'.status = .deadLettered := by
    unfold failRow at hfail
    split at hfail
    · cases hfail
      rfl
    · obtain ⟨delay, -, hfail⟩ := bind_eq_ok.1 hfail
      cases hfail
      cases hend
  rw [if_pos hdead] at hfin
  have hjob : ownerOf (scanJob r').id (scanJob r').kind (scanJob r').payload = some o := ho
  exact finalizer_settled (hk.withQueue _) hfin hjob

/-- The operations that can take a job off the queue. -/
def Ends : Op → Bool
  | .complete .. | .fail .. | .recoverStaleClaims .. | .beginJob .. | .finishJob .. => true
  | _ => false

theorem mem_of_updateWhere {p : JobRow → Bool} {f : JobRow → JobRow}
    (hf : ∀ r, p r = true → (f r).status.isTerminal = false)
    (hr' : r' ∈ updateWhere p f queue) (hend : r'.status.isTerminal = true) : r' ∈ queue := by
  obtain ⟨r, hr, rfl⟩ := mem_updateWhere.1 hr'
  by_cases hp : p r = true
  · rw [if_pos hp, hf r hp] at hend
    cases hend
  · rw [if_neg hp]
    exact hr

theorem mem_of_insertRow {r r' : JobRow} (hnew : IsNew r)
    (hins : insertRow JobRow.id r queue = some queue') (hr' : r' ∈ queue')
    (hend : r'.status.isTerminal = true) : r' ∈ queue := by
  obtain ⟨-, rfl⟩ := insertRow_eq_some.1 hins
  rcases mem_append.1 hr' with hr | hr
  · exact hr
  · rw [mem_singleton] at hr
    rw [hr, hnew.queued] at hend
    cases hend

theorem mem_applied {α : Type} {r : Except Err (α × DB)} (h : r' ∈ (applied s r).db.queue) :
    r' ∈ s.db.queue ∨ ∃ a db, r = .ok (a, db) ∧ r' ∈ db.queue := by
  cases r with
  | error e => exact .inl h
  | ok p => exact .inr ⟨p.1, p.2, rfl, h⟩

theorem step_open (hop : Ends op = false) (hr' : r' ∈ (step s op).db.queue)
    (hend : r'.status.isTerminal = true) : r' ∈ s.db.queue := by
  by_cases hq : op.OnQueue = false
  · exact step_queue_eq hq ▸ hr'
  cases op with
  | enqueue unique kind payload configured now =>
    simp only [step, withNew] at hr'
    split at hr'
    · exact hr'
    rcases mem_applied hr' with hold | ⟨a, db, hok, hr'⟩
    · exact hold
    obtain ⟨queue, hins, hdb⟩ := enqueue_queue hok
    rw [hdb] at hr'
    exact mem_of_insertRow (newRow_isNew _ _ _ _ (maxAttempts_pos configured)) hins hr' hend
  | claim unique now locked =>
    simp only [step, withNew, claim] at hr'
    iterate 2
      split at hr'
      · exact hr'
    exact mem_of_updateWhere (fun r _ => rfl) hr' hend
  | renewClaim jobID token now =>
    rcases mem_applied hr' with hold | ⟨a, db, hok, hr'⟩
    · exact hold
    rw [updateClaimed_ok hok] at hr'
    refine mem_of_updateWhere (fun r hclaim => ?_) hr' hend
    have hp : r.status = .processing := (of_decide_eq_true hclaim).2.1
    change r.status.isTerminal = false
    rw [hp]
    rfl
  | purgeOldJobs olderThan => exact (mem_deleteWhere.1 hr').1
  | claimSchedule claim =>
    rcases mem_applied hr' with hold | ⟨a, db, hok, hr'⟩
    · exact hold
    rcases claimScheduledTaskExecution_ok hok with ⟨-, rfl⟩ | ⟨-, -, queue, hins, rfl⟩
    · exact hr'
    · exact mem_of_insertRow (newRow_isNew _ _ _ _ (one_le_claimMaxAttempts _)) hins hr' hend
  | _ => simp_all [Ends, Op.OnQueue]

/-- A row that a step ends is ended together with its record. -/
theorem step_closed (h : ClaimFencing.Inv s) (hop : Admissible s op)
    (hr' : r' ∈ (step s op).db.queue) (hend : r'.status.isTerminal = true) :
    r' ∈ s.db.queue ∨ ∀ o, ownerOf r'.id r'.kind r'.payload = some o →
      Established s.issued (· ∈ s.db.queue.map JobRow.id) o → Settled (step s op).db o := by
  by_cases hends : Ends op = false
  · exact .inl (step_open hends hr' hend)
  let P : DB → Prop := fun db => r' ∈ db.queue → r' ∈ s.db.queue ∨
    ∀ o, ownerOf r'.id r'.kind r'.payload = some o →
      Established s.issued (· ∈ s.db.queue.map JobRow.id) o → Settled db o
  have hsame : P s.db := Or.inl
  cases op with
  | complete jobID token now => exact absurd rfl (hop.1 jobID token now)
  | fail jobID token errMsg now faults ack =>
    refine commit_state P hsame (fun _ db' hok hr => ?_) hr'
    exact (fail_closed h.tables hok hr hend).imp_right fun hs o ho _ => hs o ho
  | recoverStaleClaims now staleClaimAt locked faults ack =>
    exact commit_state P hsame (fun _ db' hok hr => recover_closed h.tables hok hr hend) hr'
  | beginJob job now ack =>
    refine commit_state P hsame (fun dispatch db' hok hr => ?_) hr'
    obtain ⟨r, b, hmem, hm, hb, hcase⟩ := beginJobExecution_ok hok
    rcases hcase with ⟨-, -, rfl⟩ | ⟨-, -, mid, hclose, rfl⟩
    · exact .inl (markRunning_queue s.db b.owner ▸ hr)
    · exact (close_settled h.tables h.keyed hmem hm hb hclose hr).imp_right fun hs o ho _ => hs o ho
  | finishJob job result now ack =>
    refine commit_state P hsame (fun _ db' hok hr => ?_) hr'
    obtain ⟨r, b, mid, hmem, hm, hb, hcase, rfl⟩ := finishJobExecution_ok hok
    have hclose : Close s.db b mid := .of_finished hcase
    exact (close_settled h.tables h.keyed hmem hm hb hclose hr).imp_right fun hs o ho _ => hs o ho
  | _ => exact absurd rfl hends

theorem init_inv : Inv State.init := by
  refine ⟨ClaimFencing.init_inv, ?_, ?_⟩
  all_goals
    intro r hr
    cases hr

theorem step_inv (h : Inv s) (hop : Admissible s op) : Inv (step s op) := by
  have he := h.fence.effect op
  refine ⟨ClaimFencing.step_inv h.fence op, ?_, ?_⟩
  · intro r' hr' o ho
    rcases he.queue.mem_cases hr' with hr | ⟨r, hr, hm⟩ | ⟨hnew, -⟩
    · exact (h.generated r' hr o ho).mono he.issued
    · rw [hm.id_eq, hm.kind_eq, hm.payload_eq] at ho
      exact (h.generated r hr o ho).mono he.issued
    cases op with
    | enqueue unique kind payload configured now =>
      cases hnew
      exact (hop.2 o ho).mono he.issued
    | claimSchedule c =>
      cases hnew
      obtain ⟨p, rfl⟩ := ownerOf_scheduleRun ho
      trivial
    | _ => exact hnew.elim
  · intro r' hr' hend o ho
    have hold : ∀ r ∈ s.db.queue, ownerOf r.id r.kind r.payload = some o →
        Established s.issued (· ∈ s.db.queue.map JobRow.id) o := fun r hr => h.established hr
    rcases step_closed h.fence hop hr' hend with hr | hclosed
    · exact he.business.settled (hold r' hr ho) (h.agrees r' hr hend o ho)
    rcases he.queue.mem_cases hr' with hr | ⟨r, hr, hm⟩ | ⟨hnew, -⟩
    · exact hclosed o ho (hold r' hr ho)
    · refine hclosed o ho (hold r hr ?_)
      rw [← hm.id_eq, ← hm.kind_eq, ← hm.payload_eq]
      exact ho
    · rw [hnew.isNew.queued] at hend
      cases hend

end

/-- A finalizer that fails, for whatever reason, takes the dead-lettering of its job back. -/
structure FinalizerAtomic (s : State) : Prop where
  fail : ∀ (jobID token errMsg : String) (now : ℕ) (faults : List String) (ack : Ack)
    (r r' : JobRow) (e : Err), s.db.queue.find? (fun x => HoldsClaim jobID token x) = some r →
    failRow now errMsg r = .ok r' → r'.status = .deadLettered →
    finalizer faults (s.db.withQueue (updateWhere (fun x => HoldsClaim jobID token x) (fun _ => r')
      s.db.queue)) (scanJob r') = .error e →
    step s (.fail jobID token errMsg now faults ack) = s
  recover : ∀ (now staleClaimAt : ℕ) (locked faults : List String) (ack : Ack)
    (queue : List JobRow) (before after : List Job) (job : Job) (mid : DB) (e : Err),
    recoverBatch now (expired s.db.queue (now - staleClaimAt) locked) s.db.queue = .ok queue →
    deadJobs (expired s.db.queue (now - staleClaimAt) locked) queue = before ++ job :: after →
    before.foldlM (finalizer faults) (s.db.withQueue queue) = .ok mid →
    finalizer faults mid job = .error e →
    step s (.recoverStaleClaims now staleClaimAt locked faults ack) = s

theorem finalizerAtomic (s : State) : FinalizerAtomic s where
  fail := by
    intro jobID token errMsg now faults ack r r' e hr hfail hdead hfin
    have herr : fail (finalizer faults) s.db jobID token errMsg now = .error e := by
      unfold DB.withQueue at hfin
      simp [fail, hr, hfail, ok_bind, if_pos hdead, hfin, error_bind]
    simp [step, herr, commit_error]
  recover := by
    intro now staleClaimAt locked faults ack queue before after job mid e hbatch hdead hmid hfin
    have hfold : (deadJobs (expired s.db.queue (now - staleClaimAt) locked) queue).foldlM
        (finalizer faults) (s.db.withQueue queue) = .error e := by
      rw [hdead, foldlM_append, hmid, ok_bind, foldlM_cons, hfin, error_bind]
    have hcommit : (commit ack Err.database s.db (recoverStaleClaims (finalizer faults) s.db now
        staleClaimAt locked)).2 = s.db := by
      unfold recoverStaleClaims
      split
      · cases ack <;> rfl
      · simp [hbatch, ok_bind, hfold, error_bind, commit_error]
    simp [step, hcommit]

end LabTether.TerminalAgreement
