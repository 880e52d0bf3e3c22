import LabTether.WorkerFleet

/-!
Dispatch of the children of a schedule occurrence.
An occurrence is dispatched to one worker once, and that worker tries each target once, so
`StartScheduledAction` authorises at most one child for a target. It does so only while the
occurrence is the running one of its schedule. A pause, a deletion and the claim of a later
occurrence end that, and nothing brings it back; what the withdrawn occurrence still writes
leaves the schedule row to its successor.
-/
namespace LabTether.ScheduledChildren

open Table Transaction Transition BusinessRecords JobExecution RecordStore Hub List DispatchOnce Option
open WorkerFleet ScheduleTargets

variable {now : ℕ} {ack : Ack}

section

/-- Worker `w` still has the target before it. -/
def Trying (f : Fleet) (w : ℕ) (jobID target : String) : Prop :=
  ∃ job todo children, (f.workers w).phase = .executing job todo children ∧ job.id = jobID ∧
    target ∈ todo

structure Inv (f : Fleet) : Prop where
  hub : DispatchOnce.Inv f.hub
  nodup : ∀ w job todo children, (f.workers w).phase = .executing job todo children → todo.Nodup
  trying : ∀ w j t, Trying f w j t →
    .dispatched (.occurrence j) ∈ f.hub.log ∧ .childStarted j t ∉ f.hub.log
  alone : ∀ w w' j t t', Trying f w j t → Trying f w' j t' → w = w'
  started : ∀ j t, .childStarted j t ∈ f.hub.log → .dispatched (.occurrence j) ∈ f.hub.log
  once : ∀ j t, f.hub.log.count (.childStarted j t) ≤ 1

variable {f : Fleet} {w : ℕ} {act : Act} {op : FleetOp}

theorem targetsOf_nodup (assets : List AssetRef) (groups : List GroupRef) (job : Job) :
    (targetsOf assets groups job).Nodup := by
  unfold targetsOf
  split
  next p _ =>
    cases hr : resolveScheduleExecutionTargets assets groups p with
    | error e => exact nodup_nil
    | ok targets => exact resolveScheduleExecutionTargets_nodup hr
  · exact nodup_nil

variable {job : Job}

theorem dispatchEvents_of_target {assets : List AssetRef} {groups : List GroupRef}
    {t : String} (ht : t ∈ targetsOf assets groups job) :
    dispatchEvents job (.ok true) = [.dispatched (.occurrence job.id)] := by
  unfold targetsOf at ht
  split at ht
  next p hp =>
    have hid : p.jobID = job.id := ownerOf_schedule hp
    simp [dispatchEvents, hp, keyOf, hid]
  · cases ht

theorem workers_other {v : ℕ} (hv : v ≠ w) : (fleetStep f (.work w act)).workers v = f.workers v :=
  Function.update_of_ne hv _ _

theorem workers_self : (fleetStep f (.work w act)).workers w = next f.hub (f.workers w) act :=
  Function.update_self _ _ _

theorem step_hub_keeps (h : DispatchOnce.Inv f.hub) (hop : KeepsQueue op) :
    DispatchOnce.Inv (fleetStep f op).hub := by
  change DispatchOnce.Inv ((hubOp f op).elim f.hub (step f.hub))
  cases ho : hubOp f op with
  | none => exact h
  | some o => exact step_inv h (hubOp_keeps hop ho)

theorem trying_cases {v : ℕ} {j t : String} (h : Trying (fleetStep f (.work w act)) v j t) :
    Trying f v j t ∨ (v = w ∧ ∃ assets groups now ack job, act = .begin assets groups now ack ∧
      (f.workers w).phase = .handling job ∧ job.id = j ∧
      (beginAnswer f.hub job now ack).1 = .ok true ∧ t ∈ targetsOf assets groups job) := by
  obtain ⟨job, todo', children', hphase, hid, ht⟩ := h
  by_cases hv : v = w
  · subst hv
    rw [workers_self] at hphase
    rcases next_executing hphase with
      ⟨assets, groups, now, ack, hact, hjob, hans, htodo⟩ | ⟨todo, children, hexec, hsub, -⟩
    · subst htodo
      exact .inr ⟨rfl, assets, groups, now, ack, job, hact, hjob, hid, hans, ht⟩
    refine .inl ⟨job, todo, children, hexec, hid, ?_⟩
    rcases hsub with rfl | ⟨target, rfl⟩
    · exact ht
    · exact mem_of_mem_erase ht
  · rw [workers_other hv] at hphase
    exact .inl ⟨job, todo', children', hphase, hid, ht⟩

theorem step_nodup (h : Inv f) (op : FleetOp) : ∀ v job todo children,
    ((fleetStep f op).workers v).phase = .executing job todo children → todo.Nodup := by
  intro v job todo' children' hphase
  rcases op with o | ⟨w, act⟩
  · exact h.nodup v job todo' children' hphase
  by_cases hv : v = w
  · subst hv
    rw [workers_self] at hphase
    rcases next_executing hphase with
      ⟨assets, groups, now, ack, -, -, -, rfl⟩ | ⟨todo, children, hexec, hsub, -⟩
    · exact targetsOf_nodup assets groups job
    have hnd := h.nodup v job todo children hexec
    rcases hsub with rfl | ⟨target, rfl⟩
    · exact hnd
    · exact hnd.erase target
  · rw [workers_other hv] at hphase
    exact h.nodup v job todo' children' hphase

theorem Inv.quiet (h : Inv f) (hop : KeepsQueue op) (hlog : (fleetStep f op).hub.log = f.hub.log)
    (htry : ∀ v j t, Trying (fleetStep f op) v j t → Trying f v j t) : Inv (fleetStep f op) := by
  refine ⟨step_hub_keeps h.hub hop, step_nodup h op, ?_, ?_, ?_, ?_⟩
  · intro v j t ht
    rw [hlog]
    exact h.trying v j t (htry v j t ht)
  · intro v v' j t t' ht ht'
    exact h.alone v v' j t t' (htry v j t ht) (htry v' j t' ht')
  · rw [hlog]
    exact h.started
  · rw [hlog]
    exact h.once

theorem childStarted_not_mem_dispatchEvents {a : Except Err Bool} {j t : String} :
    Event.childStarted j t ∉ dispatchEvents job a := by
  unfold dispatchEvents
  split
  · split <;> simp
  · simp

theorem dispatch_fresh {f' : Fleet} (h : DispatchOnce.Inv f'.hub) {j : String} {events : List Event}
    (hlog : f'.hub.log = f.hub.log ++ events) (hnew : .dispatched (.occurrence j) ∈ events) :
    .dispatched (.occurrence j) ∉ f.hub.log := by
  intro hold
  have hcount := h.once (.occurrence j)
  rw [hlog, count_append] at hcount
  have hone := count_pos_iff.2 hold
  have htwo := count_pos_iff.2 hnew
  omega

theorem begin_inv (h : Inv f) {assets : List AssetRef} {groups : List GroupRef}
    (hjob : (f.workers w).phase = .handling job) :
    Inv (fleetStep f (.work w (.begin assets groups now ack))) := by
  set f' := fleetStep f (.work w (.begin assets groups now ack)) with hf
  have hhub : DispatchOnce.Inv f'.hub := step_hub_keeps h.hub (fun o ho => by cases ho)
  have hlog : f'.hub.log = f.hub.log ++ dispatchEvents job (beginAnswer f.hub job now ack).1 := by
    simp [hf, fleetStep, hubOp, call, hjob, step]
  -- a worker with new targets was dispatched just now
  have hnew : ∀ v j t, Trying f' v j t → Trying f v j t ∨ (v = w ∧
      .dispatched (.occurrence j) ∈ dispatchEvents job (beginAnswer f.hub job now ack).1) := by
    intro v j t ht
    rcases trying_cases ht with hold | ⟨hv, as, gs, n, a, job', hact, hjob', hid, hans, hmem⟩
    · exact .inl hold
    cases hact
    rw [hjob] at hjob'
    cases hjob'
    refine .inr ⟨hv, ?_⟩
    rw [hans, dispatchEvents_of_target hmem, hid]
    exact .head _
  refine ⟨hhub, step_nodup h _, ?_, ?_, ?_, ?_⟩
  · intro v j t ht
    rw [hlog]
    rcases hnew v j t ht with hold | ⟨-, hev⟩
    · obtain ⟨hd, hc⟩ := h.trying v j t hold
      refine ⟨mem_append_left _ hd, fun hmem => ?_⟩
      rcases mem_append.1 hmem with hmem | hmem
      · exact hc hmem
      · exact childStarted_not_mem_dispatchEvents hmem
    · refine ⟨mem_append_right _ hev, fun hmem => ?_⟩
      rcases mem_append.1 hmem with hmem | hmem
      · exact dispatch_fresh hhub hlog hev (h.started j t hmem)
      · exact childStarted_not_mem_dispatchEvents hmem
  · intro v v' j t t' ht ht'
    rcases hnew v j t ht with hold | ⟨hv, hev⟩
    · rcases hnew v' j t' ht' with hold' | ⟨-, hev'⟩
      · exact h.alone v v' j t t' hold hold'
      · exact absurd (h.trying v j t hold).1 (dispatch_fresh hhub hlog hev')
    · rcases hnew v' j t' ht' with hold' | ⟨hv', -⟩
      · exact absurd (h.trying v' j t' hold').1 (dispatch_fresh hhub hlog hev)
      · exact hv.trans hv'.symm
  · intro j t hmem
    rw [hlog] at hmem ⊢
    rcases mem_append.1 hmem with hmem | hmem
    · exact mem_append_left _ (h.started j t hmem)
    · exact absurd hmem childStarted_not_mem_dispatchEvents
  · intro j t
    rw [hlog, count_append, count_eq_zero.2 childStarted_not_mem_dispatchEvents]
    exact h.once j t

theorem start_inv (h : Inv f) {target unique : String}
    {todo : List String} {children : List ActionJob}
    (hexec : (f.workers w).phase = .executing job todo children) (htarget : target ∈ todo)
    (hfresh : idgenNew "schedact" unique ∉ f.hub.issued) :
    Inv (fleetStep f (.work w (.startTarget target unique now ack))) := by
  have hself : Trying f w job.id target := ⟨job, todo, children, hexec, rfl, htarget⟩
  set f' := fleetStep f (.work w (.startTarget target unique now ack)) with hf
  obtain ⟨a, hlog⟩ : ∃ a, f'.hub.log = f.hub.log ++ childEvents job target a := by
    refine ⟨(startAnswer f.hub job target (idgenNew "schedact" unique) now ack).1, ?_⟩
    simp only [hf, fleetStep, hubOp, call, hexec, htarget, hfresh, not_false_eq_true, and_self,
      if_true, Option.elim, step, withNew, if_false]
    rfl
  have hold : ∀ v j t, Trying f' v j t → Trying f v j t := by
    intro v j t ht
    rcases trying_cases ht with hold | ⟨-, as, gs, n, a, job', hact, -⟩
    · exact hold
    · cases hact
  -- the target that is started is no longer before any worker
  have hgone : ∀ v, ¬ Trying f' v job.id target := by
    intro v ht
    have hv : v = w := h.alone v w job.id target target (hold v job.id target ht) hself
    subst hv
    obtain ⟨job', todo', children', hphase, -, hmem⟩ := ht
    rw [workers_self] at hphase
    rcases next_executing hphase with ⟨as, gs, n, b, hact, -⟩ | ⟨todo₀, ch₀, hexec₀, -, hstart⟩
    · cases hact
    rw [hexec] at hexec₀
    cases hexec₀
    rw [hstart target unique now ack rfl htarget hfresh] at hmem
    exact ((h.nodup v job todo children hexec).mem_erase_iff.1 hmem).1 rfl
  refine ⟨step_hub_keeps h.hub (fun o ho => by cases ho), step_nodup h _, ?_, ?_, ?_, ?_⟩
  · intro v j t ht
    obtain ⟨hd, hc⟩ := h.trying v j t (hold v j t ht)
    rw [hlog]
    refine ⟨mem_append_left _ hd, fun hmem => ?_⟩
    rcases mem_append.1 hmem with hmem | hmem
    · exact hc hmem
    · cases (mem_childEvents hmem).2
      exact hgone v ht
  · intro v v' j t t' ht ht'
    exact h.alone v v' j t t' (hold v j t ht) (hold v' j t' ht')
  · intro j t hmem
    rw [hlog] at hmem ⊢
    refine mem_append_left _ ?_
    rcases mem_append.1 hmem with hmem | hmem
    · exact h.started j t hmem
    · cases (mem_childEvents hmem).2
      exact (h.trying w job.id target hself).1
  intro j t
  rw [hlog, count_append]
  by_cases hev : .childStarted j t ∈ childEvents job target a
  · cases (mem_childEvents hev).2
    have hzero := count_eq_zero.2 (h.trying w job.id target hself).2
    have hone : (childEvents job target a).length ≤ 1 := by
      unfold childEvents
      split <;> simp
    have hle : (childEvents job target a).count (.childStarted job.id target) ≤
      (childEvents job target a).length := count_le_length
    omega
  · rw [count_eq_zero.2 hev]
    exact h.once j t

theorem authorises_byWorker {o : Op} (h : o.Authorises = true) : byWorker o = true := by
  cases o <;> first | rfl | cases h

theorem call_authorises {s : State} {wk : Worker} {o : Op} (hcall : call s wk act = some o)
    (ho : o.Authorises = true) :
    (∃ assets groups now ack job, act = .begin assets groups now ack ∧ wk.phase = .handling job) ∨
    (∃ target unique now ack job todo children, act = .startTarget target unique now ack ∧
      wk.phase = .executing job todo children ∧ target ∈ todo ∧
      idgenNew "schedact" unique ∉ s.issued) := by
  revert hcall
  fun_cases call s wk act
  all_goals
    rintro ⟨⟩
    try cases ho
  case case6 assets groups now ack job hjob => exact .inl ⟨assets, groups, now, ack, job, rfl, hjob⟩
  case case8 target unique now ack job todo children hexec hguard =>
    exact .inr ⟨target, unique, now, ack, job, todo, children, rfl, hexec, hguard⟩

theorem step_inv (h : Inv f) (hop : KeepsQueue op) : Inv (fleetStep f op) := by
  cases op with
  | hub o =>
    refine h.quiet hop ?_ fun _ _ _ ht => ht
    simp only [fleetStep, hubOp]
    split
    next hcall =>
      refine step_log_eq ?_
      by_contra hauth
      have hby := authorises_byWorker (by simpa using hauth)
      rw [hcall.1] at hby
      cases hby
    · rfl
  | work w act =>
    by_cases hauth : ∃ o, call f.hub (f.workers w) act = some o ∧ o.Authorises = true
    · obtain ⟨o, hcall, ho⟩ := hauth
      rcases call_authorises hcall ho with ⟨assets, groups, now, ack, job, rfl, hjob⟩ |
        ⟨target, unique, now, ack, job, todo, children, rfl, hexec, htarget, hfresh⟩
      · exact begin_inv h hjob
      · exact start_inv h hexec htarget hfresh
    refine h.quiet hop ?_ ?_
    · simp only [fleetStep, hubOp]
      rcases hcall : call f.hub (f.workers w) act with _ | o
      · rfl
      refine step_log_eq ?_
      by_contra ho
      exact hauth ⟨o, hcall, by simpa using ho⟩
    · intro v j t ht
      rcases trying_cases ht with hold | ⟨-, assets, groups, now, ack, job, rfl, hjob, -⟩
      · exact hold
      · exact absurd ⟨.beginJob job now ack, by simp [call, hjob], rfl⟩ hauth

theorem init_inv : Inv Fleet.init := by
  have hidle : ∀ w j t, ¬ Trying Fleet.init w j t := by
    intro w j t h
    obtain ⟨job, todo, children, hphase, -⟩ := h
    cases hphase
  refine ⟨DispatchOnce.init_inv, ?_, ?_, ?_, ?_, ?_⟩
  · intro w job todo children h
    cases h
  · intro w j t h
    exact absurd h (hidle w j t)
  · intro w w' j t t' h
    exact absurd h (hidle w j t)
  · intro j t h
    cases h
  · intro j t
    exact Nat.zero_le 1

theorem run_inv {ops : List FleetOp} (hops : ∀ op ∈ ops, KeepsQueue op) :
    Inv (run fleetStep Fleet.init ops) :=
  run_invariant fleetStep Inv (fun _ _ hop hf => step_inv hf hop) init_inv hops

end

variable {db db' : DB}

section

variable {s : State} {p : ExecutionJob} {op : Op}

/-- The operation pauses or deletes the schedule of the occurrence, or claims a later
occurrence of it, and commits. -/
def Withdraws (s : State) (p : ExecutionJob) : Op → Prop
  | .updateSchedule id e => id = p.scheduleID ∧ e.enabled = some false ∧
      ∃ db, updateScheduledTask s.db id e = .ok ((), db)
  | .deleteSchedule id => id = p.scheduleID
  | .claimSchedule claim => claim.scheduleID = p.scheduleID ∧
      ∃ db, claimScheduledTaskExecution s.db claim = .ok (true, db)
  | _ => False

/-- The occurrence is in the queue under its job id. -/
def Queued (s : State) (p : ExecutionJob) : Prop :=
  ∃ r ∈ s.db.queue, ownerOf r.id r.kind r.payload = some (.schedule p)

theorem Queued.mem_ids (h : Queued s p) : p.jobID ∈ s.db.queue.map JobRow.id := by
  obtain ⟨r, hr, ho⟩ := h
  rw [ownerOf_schedule ho]
  exact mem_map_of_mem hr

theorem Queued.step (h : Queued s p) (hinv : ClaimFencing.Inv s) (hop : Keeps op) :
    Queued (step s op) p := by
  obtain ⟨r, hr, ho⟩ := h
  rcases (hinv.effect op).queue.successor hr (hop.not_purges r) with hr' | ⟨r', hr', hm⟩
  · exact ⟨r, hr', ho⟩
  · refine ⟨r', hr', ?_⟩
    rw [hm.id_eq, hm.kind_eq, hm.payload_eq]
    exact ho

theorem pause_settled {id : String} {e : ScheduleEdit} (hid : id = p.scheduleID)
    (hpause : e.enabled = some false) (hok : updateScheduledTask db id e = .ok ((), db')) :
    Settled db' (.schedule p) := by
  unfold updateScheduledTask at hok
  rw [if_neg (by simp [ScheduleEdit.isEmpty, hpause])] at hok
  split at hok
  · cases hok
    intro st hn
    obtain ⟨t, ht, htid, hjob, rfl⟩ := hn
    obtain ⟨x, -, rfl⟩ := mem_updateWhere.1 ht
    by_cases hx : x.id = id
    · rw [if_pos (decide_eq_true hx)] at hjob ⊢
      by_cases hact : x.lastRunStatus.isActive = true
      · simp [applyEdit, hpause, hact] at hjob
      · simp [applyEdit, hpause, hact]
    · rw [if_neg (by simpa using hx)] at htid
      exact absurd (htid.trans hid.symm) hx
  · cases hok

theorem delete_settled {db : DB} : Settled (deleteScheduledTask db p.scheduleID) (.schedule p) := by
  intro st hn
  obtain ⟨t, ht, htid, -⟩ := hn
  have hkept := (mem_deleteWhere.1 ht).2
  exact absurd htid (by simpa using hkept)

theorem claim_settled (hk : TablesKeyed db) (hq : p.jobID ∈ db.queue.map JobRow.id)
    {claim : ExecutionClaim} (hid : claim.scheduleID = p.scheduleID)
    (hok : claimScheduledTaskExecution db claim = .ok (true, db')) : Settled db' (.schedule p) := by
  rcases claimScheduledTaskExecution_ok hok with ⟨hfalse, -⟩ | ⟨-, ⟨y, hy, hyc⟩, queue, hins, rfl⟩
  · cases hfalse
  intro st hn
  obtain ⟨t, ht, htid, hjob, -⟩ := hn
  obtain ⟨x, hx, rfl⟩ := mem_updateWhere.1 ht
  by_cases hxc : IsClaimable claim x
  · rw [if_pos (decide_eq_true hxc)] at hjob
    have hnew : claim.job.jobID = p.jobID := some.inj hjob
    have hfresh : claim.job.jobID ∉ db.queue.map JobRow.id := (insertRow_eq_some.1 hins).1
    rw [hnew] at hfresh
    exact absurd hq hfresh
  · rw [if_neg (by simpa using hxc)] at htid
    have hxy : x = y := hk.schedules.eq hx hy (htid.trans (hid.symm.trans hyc.1.symm))
    exact absurd (hxy ▸ hyc) hxc

theorem withdraws_settled (hinv : ClaimFencing.Inv s) (hq : Queued s p) (h : Withdraws s p op) :
    Settled (step s op).db (.schedule p) := by
  cases op with
  | updateSchedule id e =>
    obtain ⟨hid, hpause, db, hok⟩ := h
    simp only [step, hok, applied]
    exact pause_settled hid hpause hok
  | deleteSchedule id =>
    cases h
    exact delete_settled
  | claimSchedule claim =>
    obtain ⟨hid, db, hok⟩ := h
    simp only [step, hok, applied]
    exact claim_settled hinv.tables hq.mem_ids hid hok
  | _ => exact h.elim

theorem Withdraws.keeps (h : Withdraws s p op) : Keeps op ∧ op.Authorises = false := by
  cases op with
  | updateSchedule id e | deleteSchedule id | claimSchedule claim => exact ⟨by simp [Keeps], rfl⟩
  | _ => exact h.elim

variable (hinv : ClaimFencing.Inv s)
include hinv

variable (hq : Queued s p)
include hq

variable (hs : Settled s.db (.schedule p))
include hs

theorem step_settled :
    Settled (step s op).db (.schedule p) := by
  have hest := hq.mem_ids
  exact (hinv.effect op).business.settled hest hs

theorem start_refused {claim : Job}
    (hid : claim.id = p.jobID) {target actionJobID : String} {child : ActionJob} :
    (startAnswer s claim target actionJobID now ack).1 ≠ .ok child := by
  intro hans
  obtain ⟨r, q, hr, hm, hb, -⟩ := startScheduledAction_ok (commit_eq_ok hans)
  obtain ⟨howner, hstatus⟩ := lockJobBusiness_ok.1 hb
  obtain ⟨x, hx, hox⟩ := hq
  -- the claim is on the occurrence's own row, so it names the same occurrence
  have hxr : x = r := hinv.keyed.eq hx hr
    ((ownerOf_schedule hox).symm.trans (hid.symm.trans hm.1.symm))
  subst hxr
  obtain ⟨hmid, -, -, hkind, hpay⟩ := hm
  rw [hmid, hkind, hpay, howner] at hox
  cases hox
  have hnamed := namedStatus_of_active (ownerOf_logicalID howner) hstatus rfl
  have hinactive := hs .running hnamed
  cases hinactive

theorem step_noChild (target : String) :
    (step s op).log.count (.childStarted p.jobID target) =
      s.log.count (.childStarted p.jobID target) := by
  by_cases hauth : op.Authorises = false
  · rw [step_log_eq hauth]
  cases op with
  | beginJob job now ack =>
    simp only [step]
    rw [count_append, count_eq_zero.2 childStarted_not_mem_dispatchEvents, Nat.add_zero]
  | startChild claim t unique now ack =>
    simp only [step, withNew]
    split
    · rfl
    rw [count_append, Nat.add_eq_left, count_eq_zero]
    intro hev
    obtain ⟨⟨child, hans⟩, hkey⟩ := mem_childEvents hev
    have hid : p.jobID = claim.id := (Event.childStarted.inj hkey).1
    exact start_refused hinv hq hs hid.symm hans
  | _ => exact absurd rfl hauth

theorem run_noChild {ops : List Op}
    (hops : ∀ o ∈ ops, Keeps o) (target : String) :
    (run step s ops).log.count (.childStarted p.jobID target) =
      s.log.count (.childStarted p.jobID target) := by
  induction ops generalizing s with
  | nil => rfl
  | cons o ops ih =>
    have hkeep : Keeps o := hops o (.head _)
    rw [run_cons, ih (ClaimFencing.step_inv hinv o) (hq.step hinv hkeep) (step_settled hinv hq hs)
      fun x hx => hops x (.tail _ hx)]
    exact step_noChild hinv hq hs target

end

section

variable {s : State} {p : ExecutionJob}

theorem mem_updateWhere_successor (hk : TablesKeyed db) (hid : p.jobID ≠ "")
    (hst : occurrenceStatus db p ≠ .superseded) {t : ScheduleRow} (ht : t ∈ db.schedules)
    (hjob : t.lastRunJobID ≠ some p.jobID) (f : ScheduleRow → ScheduleRow) :
    t ∈ updateWhere (fun t => t.id = p.scheduleID) f db.schedules := by
  obtain ⟨x, hx, hxid, hxjob, -⟩ := occurrenceStatus_pointer hid hst
  refine mem_updateWhere_of_not ht (decide_eq_false fun htid => hjob ?_)
  rw [hk.schedules.eq ht hx (htid.trans hxid.symm), hxjob]

theorem close_successor (hk : TablesKeyed db) {b : JobBusiness}
    (hp : b.owner = .schedule p) (hid : p.jobID ≠ "") (hst : ownerStatus db b.owner = some b.status)
    (h : Close db b db') {t : ScheduleRow} (ht : t ∈ db.schedules)
    (hjob : t.lastRunJobID ≠ some p.jobID) : t ∈ db'.schedules := by
  cases h with
  | superseded hs =>
    rw [hp]
    exact ht
  | kept ha hd => exact ht
  | result db' hs hw =>
    rw [hp] at hst hw
    have hstatus : occurrenceStatus db p = b.status := some.inj hst
    have hne : occurrenceStatus db p ≠ .superseded := by
      rw [hstatus]
      rcases hs with h | h | h <;> rw [h] <;> decide
    obtain ⟨_, st, text, hfin⟩ := hw
    exact mem_updateWhere_successor hk hid hne ht hjob _

/-- Whatever `BeginJobExecution` and `FinishJobExecution` write for an occurrence, a schedule
row that points at another one keeps its status, error and pointer. -/
theorem begin_successor (hk : TablesKeyed s.db) {job : Job}
    (ho : ownerOf job.id job.kind job.payload = some (.schedule p)) {t : ScheduleRow}
    (ht : t ∈ s.db.schedules) (hjob : t.lastRunJobID ≠ some p.jobID) :
    t ∈ (step s (.beginJob job now ack)).db.schedules := by
  refine commit_state (fun db : DB => t ∈ db.schedules) ht fun dispatch db' hok => ?_
  obtain ⟨r, b, -, -, hb, hcase⟩ := beginJobExecution_ok hok
  obtain ⟨howner, hstatus⟩ := lockJobBusiness_ok.1 hb
  have hp : b.owner = .schedule p := some.inj (howner.symm.trans ho)
  rcases hcase with ⟨-, hq, rfl⟩ | ⟨-, -, mid, hclose, rfl⟩
  · rw [hp, hq] at hstatus
    have hqueued : occurrenceStatus s.db p = .queued := some.inj hstatus
    rw [hp]
    exact mem_updateWhere_successor hk (ownerOf_logicalID ho) (by rw [hqueued]; decide) ht hjob _
  · exact close_successor hk hp (ownerOf_logicalID ho) hstatus hclose ht hjob

theorem finish_successor (hk : TablesKeyed s.db) {job : Job} {result : JobExecutionResult}
    (ho : ownerOf job.id job.kind job.payload = some (.schedule p)) {t : ScheduleRow}
    (ht : t ∈ s.db.schedules) (hjob : t.lastRunJobID ≠ some p.jobID) :
    t ∈ (step s (.finishJob job result now ack)).db.schedules := by
  refine commit_state (fun db : DB => t ∈ db.schedules) ht fun _ db' hok => ?_
  obtain ⟨r, b, mid, -, -, hb, hcase, rfl⟩ := finishJobExecution_ok hok
  obtain ⟨howner, hstatus⟩ := lockJobBusiness_ok.1 hb
  have hp : b.owner = .schedule p := some.inj (howner.symm.trans ho)
  exact close_successor hk hp (ownerOf_logicalID ho) hstatus (.of_finished hcase) ht hjob

end

/-- Scheduled child dispatch, over every interleaving of workers with the other callers of
the hub: one dispatch at most for each occurrence and target, none once the occurrence is
withdrawn, and no write to a schedule row that points at another occurrence. -/
theorem scheduled_children (ops : List FleetOp) (hops : ∀ op ∈ ops, KeepsQueue op) :
    let s := (run fleetStep Fleet.init ops).hub
    (∀ jobID target, s.log.count (.childStarted jobID target) ≤ 1) ∧
    (∀ p op, Queued s p → Withdraws s p op → ∀ more, (∀ o ∈ more, Keeps o) → ∀ target,
      (run step (step s op) more).log.count (.childStarted p.jobID target) =
        s.log.count (.childStarted p.jobID target)) ∧
    (∀ job p, ownerOf job.id job.kind job.payload = some (.schedule p) →
      ∀ t ∈ s.db.schedules, t.lastRunJobID ≠ some p.jobID → ∀ result now ack,
        t ∈ (step s (.beginJob job now ack)).db.schedules ∧
        t ∈ (step s (.finishJob job result now ack)).db.schedules) := by
  intro s
  have hinv : Inv (run fleetStep Fleet.init ops) := run_inv hops
  have hfence : ClaimFencing.Inv s := hinv.hub.fence
  refine ⟨hinv.once, ?_, ?_⟩
  · intro p op hq hw more hmore target
    have hkeeps := hw.keeps
    rw [run_noChild (ClaimFencing.step_inv hfence op) (hq.step hfence hkeeps.1)
      (withdraws_settled hfence hq hw) hmore target, step_log_eq hkeeps.2]
  · intro job p ho t ht hjob result now ack
    exact ⟨begin_successor hfence.tables ho ht hjob, finish_successor hfence.tables ho ht hjob⟩

/-- One worker at most has targets of an occurrence before it, none of them started; and children
are started only of an occurrence that was dispatched, once. -/
theorem one_worker_per_occurrence (ops : List FleetOp) (hops : ∀ op ∈ ops, KeepsQueue op) :
    let f := run fleetStep Fleet.init ops
    (∀ w w' j t t', Trying f w j t → Trying f w' j t' → w = w') ∧
    (∀ w j t, Trying f w j t → .childStarted j t ∉ f.hub.log) ∧
    ∀ j t, .childStarted j t ∈ f.hub.log → f.hub.log.count (.dispatched (.occurrence j)) = 1 := by
  intro f
  have h : Inv f := run_inv hops
  refine ⟨h.alone, fun w j t ht => (h.trying w j t ht).2, fun j t hstarted => ?_⟩
  exact (h.hub.once _).antisymm (count_pos_iff.2 (h.started j t hstarted))

def sampleExecution : ExecutionJob where
  jobID := "schedjob_1"
  scheduleID := "sched_1"
  scheduleName := "nightly"
  scheduledFor := "2026-01-01T00:00:00Z"
  command := "backup"
  targets := ["nas", " nas "]
  groupID := ""
  actorID := "owner"

def sampleClaim : ExecutionClaim := ⟨"sched_1", 1, 2, 100, 5, sampleExecution, ""⟩

/-- An occurrence is dispatched and starts its one target; its worker stops, and the job is
recovered and handed to another worker. -/
def childRedelivery : List FleetOp := [
  .hub (.createSchedule "1" ⟨"nightly", "@daily", "backup", ["nas"], "", true, "owner", 1, some 1⟩),
  .hub (.claimSchedule sampleClaim),
  .work 0 (.claim "1" 3 []),
  .work 0 (.begin [⟨"nas", ""⟩] [] 3 .delivered),
  .work 0 (.startTarget "nas" "1" 4 .delivered),
  .work 0 .crash,
  .hub (.recoverStaleClaims 100 10 [] [] .delivered),
  .work 1 (.claim "2" 2000000 []),
  .work 1 (.begin [⟨"nas", ""⟩] [] 2000000 .delivered),
  .work 1 (.startTarget "nas" "2" 2000000 .delivered)]

theorem childRedelivery_keeps : ∀ op ∈ childRedelivery, KeepsQueue op := by
  simp [childRedelivery, KeepsQueue, Keeps]

theorem scheduled_children_redelivery : (run fleetStep Fleet.init childRedelivery).hub.log =
        [.dispatched (.occurrence "schedjob_1"), .childStarted "schedjob_1" "nas"] ∧
      ∀ jobID target,
        (run fleetStep Fleet.init childRedelivery).hub.log.count (.childStarted jobID target) ≤ 1 :=
  ⟨by decide +kernel, (scheduled_children childRedelivery childRedelivery_keeps).1⟩

theorem one_worker_per_occurrence_redelivery : (run fleetStep Fleet.init childRedelivery).hub.log.count
    (.dispatched (.occurrence "schedjob_1")) = 1 :=
  (one_worker_per_occurrence _ childRedelivery_keeps).2.2 _ "nas" (by decide +kernel)

end LabTether.ScheduledChildren
