import LabTether.Hub

/-!
Claim fencing on the job queue.
A queue row is processing exactly while it holds a lock token and a claim time, and a
token that has stopped being valid never becomes valid again: every operation that
carries it is refused without a trace. The invariant is kept by every operation of the
hub, whoever calls it and in whatever order; nothing is assumed about the callers.
-/
namespace LabTether.ClaimFencing

open Table Transaction Transition JobQueue BusinessRecords JobExecution Hub List

/-- The row is claimed under some token, since some time. -/
def Leased (r : JobRow) : Prop := ∃ token now, r.lockToken = some token ∧ r.lockedAt = some now

structure RowInv (issued : List String) (r : JobRow) : Prop where
  leased : r.status = .processing → Leased r
  free : r.status ≠ .processing → r.lockToken = none ∧ r.lockedAt = none
  token : ∀ token, r.lockToken = some token → token ∈ issued
  limit : 1 ≤ r.maxAttempts
  attempts : r.attempts ≤ r.maxAttempts
  retries : r.status = .queued → r.attempts < r.maxAttempts

theorem RowInv.mono {issued issued' : List String} {r : JobRow} (h : RowInv issued r)
    (hsub : issued ⊆ issued') : RowInv issued' r :=
  { h with token := fun t ht => hsub (h.token t ht) }

theorem IsNew.rowInv {issued : List String} {r : JobRow} (h : IsNew r) : RowInv issued r where
  leased hp := by
    rw [h.queued] at hp
    cases hp
  free _ := ⟨h.lockToken, h.lockedAt⟩
  token t ht := by
    rw [h.lockToken] at ht
    cases ht
  limit := h.maxAttempts
  attempts := by
    have hzero := h.attempts
    omega
  retries _ := by
    have hlimit := h.maxAttempts
    have hzero := h.attempts
    omega

theorem Move.rowInv {issued issued' : List String} {r r' : JobRow} (hsub : issued ⊆ issued')
    (hr : RowInv issued r) (h : Move issued issued' r r') : RowInv issued' r' := by
  cases h with
  | claim token now hq hfresh hnew =>
    have hlt : r.attempts < r.maxAttempts := hr.retries hq
    refine ⟨fun _ => ⟨token, now, rfl, rfl⟩, fun hne => absurd rfl hne, ?_, hr.limit, hlt, ?_⟩
    · intro t ht
      cases ht
      exact hnew
    · intro hq'
      cases hq'
  | renew now hp =>
    obtain ⟨token, old, htok, -⟩ := hr.leased hp
    refine ⟨fun _ => ⟨token, now, htok, rfl⟩, fun hne => absurd hp hne, ?_, hr.limit,
      hr.attempts, ?_⟩
    · exact fun t ht => hsub (hr.token t ht)
    intro hq
    change r.status = .queued at hq
    rw [hp] at hq
    cases hq
  | complete now hp | deadLetter now error hp ha =>
    refine ⟨fun hne => ?_, fun _ => ⟨rfl, rfl⟩, fun t ht => ?_, hr.limit, hr.attempts, fun hq => ?_⟩
    · cases hne
    · cases ht
    · cases hq
  | requeue now availableAt error completedAt hp ha =>
    refine ⟨fun hne => ?_, fun _ => ⟨rfl, rfl⟩, fun t ht => ?_, hr.limit, hr.attempts, fun _ => ha⟩
    · cases hne
    · cases ht

structure Inv (s : State) : Prop where
  keyed : Keyed JobRow.id s.db.queue
  tables : TablesKeyed s.db
  rows : ∀ r ∈ s.db.queue, RowInv s.issued r

variable {s : State}

theorem Inv.effect (h : Inv s) (op : Op) :
    StepEffect (· ∈ s.db.queue.map JobRow.id) s (step s op) op.Adds op.Purges :=
  step_effect h.keyed h.tables fun _ _ _ hj => hj

theorem init_inv : Inv State.init := by
  refine ⟨nodup_nil, ⟨nodup_nil, nodup_nil, nodup_nil, nodup_nil⟩, ?_⟩
  intro r hr
  cases hr

theorem step_inv (h : Inv s) (op : Op) : Inv (step s op) := by
  have he := h.effect op
  refine ⟨he.queue.keyed (fun _ _ hm => hm.id_eq) h.keyed, he.business.tablesKeyed h.tables, ?_⟩
  intro r' hr'
  rcases he.queue.mem_cases hr' with hr | ⟨r, hr, hm⟩ | ⟨hnew, -⟩
  · exact (h.rows r' hr).mono he.issued
  · exact Move.rowInv he.issued (h.rows r hr) hm
  · exact IsNew.rowInv hnew.isNew

theorem run_inv (h : Inv s) (ops : List Op) : Inv (run step s ops) :=
  run_invariant_all step Inv (fun _ op hs => step_inv hs op) h ops

theorem reachable_inv (ops : List Op) : Inv (run step State.init ops) := run_inv init_inv ops

section

def ValidToken (s : State) (jobID token : String) : Prop :=
  ∃ r ∈ s.db.queue, HoldsClaim jobID token r

variable {s : State}

theorem ValidToken.unique (h : Inv s) {jobID t t' : String}
    (ht : ValidToken s jobID t) (ht' : ValidToken s jobID t') : t = t' := by
  obtain ⟨r, hr, hid, -, htok⟩ := ht
  obtain ⟨r', hr', hid', -, htok'⟩ := ht'
  have hrr : r = r' := h.keyed.eq hr hr' (hid.trans hid'.symm)
  rw [hrr, htok'] at htok
  exact (Option.some.inj htok).symm

variable {jobID token : String}

theorem ValidToken.issued (h : Inv s) (ht : ValidToken s jobID token) : token ∈ s.issued := by
  obtain ⟨r, hr, -, -, htok⟩ := ht
  exact (h.rows r hr).token token htok

/-- A token that was handed out before a step and is valid after it was valid before it. -/
theorem step_validToken (h : Inv s) (op : Op)
    (hold : token ∈ s.issued) (ht : ValidToken (step s op) jobID token) :
    ValidToken s jobID token := by
  have he := h.effect op
  obtain ⟨r', hr', hid, hp, htok⟩ := ht
  rcases he.queue.mem_cases hr' with hr | ⟨r, hr, hm⟩ | ⟨hnew, -⟩
  · exact ⟨r', hr, hid, hp, htok⟩
  · cases hm with
    | claim t now hq hfresh hnew =>
      cases htok
      exact absurd hold hfresh
    | renew now hpr => exact ⟨r, hr, hid, hpr, htok⟩
    | complete now hpr | requeue now availableAt error completedAt hpr ha
    | deadLetter now error hpr ha => cases hp
  · rw [hnew.isNew.queued] at hp
    cases hp

theorem run_superseded (h : Inv s) (hold : token ∈ s.issued)
    (hnot : ¬ ValidToken s jobID token) (ops : List Op) :
    ¬ ValidToken (run step s ops) jobID token := by
  induction ops generalizing s with
  | nil => exact hnot
  | cons op ops ih =>
    have he := h.effect op
    refine ih (step_inv h op) (he.issued hold) ?_
    exact fun hv => hnot (step_validToken h op hold hv)

def Carries (jobID token : String) : Op → Prop
  | .renewClaim j t _ => j = jobID ∧ t = token
  | .complete j t _ => j = jobID ∧ t = token
  | .fail j t _ _ _ _ => j = jobID ∧ t = token
  | .beginJob job _ _ => job.id = jobID ∧ job.lockToken = token
  | .finishJob job _ _ _ => job.id = jobID ∧ job.lockToken = token
  | .startChild claim _ _ _ _ => claim.id = jobID ∧ claim.lockToken = token
  | .finishChild claim _ _ _ => claim.id = jobID ∧ claim.lockToken = token
  | _ => False

/-- What the caller of an operation with a claim is told, apart from a value. -/
def answer (s : State) : Op → Except Err Unit
  | .renewClaim j t now => (renewClaim s.db j t now).map fun _ => ()
  | .complete j t now => (complete s.db j t now).map fun _ => ()
  | .fail j t errMsg now faults ack =>
    (commit ack .database s.db (fail (finalizer faults) s.db j t errMsg now)).1.map fun _ => ()
  | .beginJob job now ack => (beginAnswer s job now ack).1.map fun _ => ()
  | .finishJob job result now ack =>
    (commit ack .database s.db (finishJobExecution s.db job result now)).1.map fun _ => ()
  | .startChild claim target unique now ack =>
    (startAnswer s claim target (idgenNew "schedact" unique) now ack).1.map fun _ => ()
  | .finishChild claim child result ack =>
    (commit ack .database s.db (finishScheduledAction s.db claim child result)).1.map fun _ => ()
  | _ => .ok ()

variable (hnot : ¬ ValidToken s jobID token)
include hnot

theorem updateClaimed_lost (f : JobRow → JobRow) : updateClaimed s.db jobID token f =
    .error .claimLost :=
  if_neg hnot

theorem fail_lost (finalize : Finalizer) (errMsg : String) (now : ℕ) :
    fail finalize s.db jobID token errMsg now = .error .claimLost := by
  have hnone : s.db.queue.find? (fun r => HoldsClaim jobID token r) = none := by
    rw [find?_eq_none]
    intro r hr hclaim
    exact hnot ⟨r, hr, by simpa using hclaim⟩
  unfold fail
  rw [hnone]

omit hnot in
theorem lockJobClaim_superseded {job : Job} (hid : job.id = jobID)
    (htok : job.lockToken = token) (hnot : ¬ ValidToken s jobID token) :
    lockJobClaim s.db job false = .error .claimLost := by
  subst hid htok
  exact lockJobClaim_lost fun r hr hm => hnot ⟨r, hr, hm.holdsClaim⟩

/-- An operation whose claim is not the valid one is refused and changes nothing. -/
theorem refused {op : Op}
    (hop : Carries jobID token op) : answer s op = .error .claimLost ∧ (step s op).db = s.db := by
  cases op with
  | renewClaim j t now =>
    obtain ⟨rfl, rfl⟩ := hop
    simp only [answer, step, renewClaim, updateClaimed_lost hnot]
    exact ⟨rfl, rfl⟩
  | complete j t now =>
    obtain ⟨rfl, rfl⟩ := hop
    simp only [answer, step, complete, updateClaimed_lost hnot]
    exact ⟨rfl, rfl⟩
  | fail j t errMsg now faults ack =>
    obtain ⟨rfl, rfl⟩ := hop
    simp only [answer, step, fail_lost hnot, commit_error]
    exact ⟨rfl, trivial⟩
  | beginJob job now ack =>
    simp only [answer, step, beginAnswer, beginJobExecution,
      lockJobClaim_superseded hop.1 hop.2 hnot, error_bind, commit_error]
    exact ⟨rfl, trivial⟩
  | finishJob job _ _ _ | finishChild job _ _ _ =>
    simp only [answer, step, finishJobExecution, finishScheduledAction,
      lockJobClaim_superseded hop.1 hop.2 hnot, error_bind, commit_error]
    exact ⟨rfl, trivial⟩
  | startChild claim target unique now ack =>
    have hlost : ∀ id, startScheduledAction s.db claim target id now = .error .claimLost := by
      intro id
      unfold startScheduledAction
      rw [lockJobClaim_superseded hop.1 hop.2 hnot, error_bind]
    refine ⟨?_, ?_⟩
    · simp only [answer, startAnswer, hlost, commit_error]
      rfl
    simp only [step, withNew]
    split
    · rfl
    · simp [startAnswer, hlost, commit_error]
  | _ => exact hop.elim

end

/-- A completed or dead-lettered row is left as it is, until it is purged. -/
theorem step_terminal (h : Inv s) {r : JobRow} (hr : r ∈ s.db.queue)
    (hterm : r.status.isTerminal = true) {op : Op} (hop : ¬ op.Purges r) :
    r ∈ (step s op).db.queue := by
  have he := h.effect op
  refine he.queue.persists hr (fun r' hm => ?_) hop
  have hlive := hm.not_terminal
  rw [hterm] at hlive
  cases hlive

theorem run_terminal (h : Inv s) {r : JobRow} (hr : r ∈ s.db.queue)
    (hterm : r.status.isTerminal = true) {ops : List Op} (hops : ∀ op ∈ ops, ¬ op.Purges r) :
    r ∈ (run step s ops).db.queue := by
  have hrun : Inv (run step s ops) ∧ r ∈ (run step s ops).db.queue := by
    refine run_invariant step (fun s => Inv s ∧ r ∈ s.db.queue) ?_ ⟨h, hr⟩ hops
    exact fun s op hop hs => ⟨step_inv hs.1 op, step_terminal hs.1 hs.2 hterm hop⟩
  exact hrun.2

/-- Claim fencing, for every sequence of operations by any number of callers: at most one
valid token per job; a row is processing exactly when it is leased; a token that was valid
and no longer is stays refused, whatever happens next; a terminal row stays until purged;
and attempts stay within the limit. -/
theorem claim_fencing (ops : List Op) :
    let s := run step State.init ops
    (∀ jobID t t', ValidToken s jobID t → ValidToken s jobID t' → t = t') ∧
    (∀ r ∈ s.db.queue, (r.status = .processing ↔ Leased r) ∧
      (r.status ≠ .processing → r.lockToken = none ∧ r.lockedAt = none)) ∧
    (∀ jobID token mid, ValidToken s jobID token →
      ¬ ValidToken (run step s mid) jobID token → ∀ more op, Carries jobID token op →
        answer (run step s (mid ++ more)) op = .error .claimLost ∧
        (step (run step s (mid ++ more)) op).db = (run step s (mid ++ more)).db) ∧
    (∀ r ∈ s.db.queue, r.status.isTerminal = true → ∀ more, (∀ op ∈ more, ¬ op.Purges r) →
      r ∈ (run step s more).db.queue) ∧
    (∀ r ∈ s.db.queue, 1 ≤ r.maxAttempts ∧ r.attempts ≤ r.maxAttempts) := by
  intro s
  have hinv : Inv s := reachable_inv ops
  refine ⟨fun jobID t t' => ValidToken.unique hinv, fun r hr => ?_, ?_, ?_, ?_⟩
  · have hrow := hinv.rows r hr
    refine ⟨⟨hrow.leased, fun hleased => ?_⟩, hrow.free⟩
    by_contra hne
    obtain ⟨token, now, htok, -⟩ := hleased
    rw [(hrow.free hne).1] at htok
    cases htok
  · intro jobID token mid hvalid hnot more op hop
    have hmid : Inv (run step s mid) := run_inv hinv mid
    have hissued : token ∈ (run step s mid).issued :=
      run_invariant_all step (fun x => Inv x ∧ token ∈ x.issued)
        (fun x op hx => ⟨step_inv hx.1 op, (hx.1.effect op).issued hx.2⟩)
        ⟨hinv, hvalid.issued hinv⟩ mid |>.2
    have hlost := run_superseded hmid hissued hnot more
    rw [← run_append] at hlost
    exact refused hlost hop
  · intro r hr hterm more hmore
    exact run_terminal hinv hr hterm hmore
  · intro r hr
    exact ⟨(hinv.rows r hr).limit, (hinv.rows r hr).attempts⟩

/-- A job waits in the queue only with an attempt left. -/
theorem queued_attempts_left (ops : List Op) : ∀ r ∈ (run step State.init ops).db.queue,
    r.status = .queued → r.attempts < r.maxAttempts :=
  fun r hr => ((reachable_inv ops).rows r hr).retries

theorem queued_attempts_left_new :
    let r := newRow "jq_1" .actionRun ⟨"", none, none, none, none⟩ 5 1
    r.attempts < r.maxAttempts :=
  queued_attempts_left [.enqueue "1" .actionRun _ 5 1] _ (.head _) rfl

end LabTether.ClaimFencing
