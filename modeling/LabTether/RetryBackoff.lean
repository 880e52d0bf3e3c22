import LabTether.ClaimFencing

/-!
The retry delay of the job queue.
`Fail` and `RecoverStaleClaims` compute the delay as a power of two that is cast to a
32-bit integer before it is capped, so a job that may still be retried after 32 attempts
cannot be failed or recovered, and it takes its whole recovery batch with it. Runtime
settings admit 50 attempts and a schedule claim 100; the arithmetic is safe exactly when no
job is admitted with more than 32.
-/
namespace LabTether.RetryBackoff

open Transaction Transition JobQueue BusinessRecords JobExecution Hub List ClaimFencing State

/-- The row is requeued with the capped exponential delay, or dead-lettered when its
attempts are used up. -/
def Settles (now : ℕ) (r : JobRow) (result : Except Err JobRow) : Prop :=
  ∃ r', result = .ok r' ∧ ((r.maxAttempts ≤ r.attempts ∧ r'.status = .deadLettered) ∨
      (r.attempts < r.maxAttempts ∧ r'.status = .queued ∧
        r'.availableAt = now + min 30 (2 ^ (r.attempts - 1)) * second))

/-- Neither operation fails because of an attempt count, and no row holds up its batch. -/
structure NeverStuck (s : State) : Prop where
  failed : ∀ r ∈ s.db.queue, r.status = .processing → ∀ now errMsg,
    Settles now r (failRow now errMsg r)
  recovered : ∀ r ∈ s.db.queue, r.status = .processing → ∀ now, Settles now r (recoverRow now r)
  fail_range : ∀ faults jobID token errMsg now,
    fail (finalizer faults) s.db jobID token errMsg now ≠ .error .integerOutOfRange
  recover_range : ∀ faults now staleClaimAt locked,
    recoverStaleClaims (finalizer faults) s.db now staleClaimAt locked ≠ .error .integerOutOfRange
  batch : ∀ now cutoff locked, ∃ queue,
    recoverBatch now (expired s.db.queue cutoff locked) s.db.queue = .ok queue

theorem backoffSeconds_ok {attempts : ℕ} (h : attempts ≤ 31) :
    backoffSeconds attempts = .ok (min 30 (2 ^ (attempts - 1))) := by
  unfold backoffSeconds
  rw [if_pos]
  exact Nat.pow_lt_pow_right (by omega) (by omega)

theorem row_settles {r : JobRow} (h : r.maxAttempts ≤ 32) (now : ℕ) (errMsg : String) :
    Settles now r (failRow now errMsg r) ∧ Settles now r (recoverRow now r) := by
  unfold failRow recoverRow
  split
  next hdead => exact ⟨⟨_, rfl, .inl ⟨hdead, rfl⟩⟩, _, rfl, .inl ⟨hdead, rfl⟩⟩
  next hlive =>
    have hlt : r.attempts < r.maxAttempts := by omega
    rw [backoffSeconds_ok (by omega)]
    exact ⟨⟨_, rfl, .inr ⟨hlt, rfl, rfl⟩⟩, _, rfl, .inr ⟨hlt, rfl, rfl⟩⟩

theorem writeScheduleResult_range (db : DB) (p : ExecutionJob) (r : ScheduleExecutionResult) :
    writeScheduleResult db p r ≠ .error .integerOutOfRange := by
  unfold writeScheduleResult truncateScheduledTaskError
  repeat' split
  all_goals simp [ok_bind, error_bind]

theorem writeResult_range (db : DB) (o : Owner) (result : JobExecutionResult) :
    writeResult db o result ≠ .error .integerOutOfRange := by
  fun_cases writeResult db o result
  case case8 => fun_cases writeActionJobResult <;> simp
  case case14 => exact writeScheduleResult_range db _ _
  all_goals simp

theorem finalizer_range (faults : List String) (db : DB) (job : Job) :
    finalizer faults db job ≠ .error .integerOutOfRange := by
  fun_cases finalizer faults db job
  · simp
  intro h
  rcases bind_eq_error.1 h with hlock | ⟨u, -, h⟩
  · unfold lockJobClaim at hlock
    split_ifs at hlock
    all_goals cases hlock
  split at h
  · cases h
  next e he =>
    rw [(lockJobBusiness_error he).1] at h
    cases h
  · repeat' split at h
    all_goals first | exact writeResult_range _ _ _ h | cases h

variable {limit : ℕ}

def Admits (limit : ℕ) (op : Op) : Prop := ∀ r, op.Adds r → r.maxAttempts ≤ limit

theorem step_limit {s : State} (h : Inv s)
    (hs : ∀ r ∈ s.db.queue, r.maxAttempts ≤ limit) {op : Op} (hop : Admits limit op) :
    ∀ r ∈ (step s op).db.queue, r.maxAttempts ≤ limit := by
  refine (h.effect op).queue.forall_mem (I := fun r => r.maxAttempts ≤ limit) ?_
    (fun r hnew => hop r hnew) hs
  intro r r' hr hm
  rw [hm.maxAttempts_eq]
  exact hr

theorem run_limit {ops : List Op} (hops : ∀ op ∈ ops, Admits limit op) :
    ∀ r ∈ (run step init ops).db.queue, r.maxAttempts ≤ limit := by
  have hrun : Inv (run step init ops) ∧
      ∀ r ∈ (run step init ops).db.queue, r.maxAttempts ≤ limit := by
    refine run_invariant step
      (fun s => Inv s ∧ ∀ r ∈ s.db.queue, r.maxAttempts ≤ limit) ?_ ?_ hops
    · exact fun s op hop hs => ⟨step_inv hs.1 op, step_limit hs.1 hs.2 hop⟩
    · exact ⟨init_inv, by simp [init, DB.empty]⟩
  exact hrun.2

theorem recoverBatch_ok {queue : List JobRow} (h : ∀ r ∈ queue, r.maxAttempts ≤ 32) (now : ℕ)
    (ids : List String) : ∃ queue', recoverBatch now ids queue = .ok queue' := by
  refine mapM_ok_of_forall fun r hr => ?_
  split
  · obtain ⟨r', hr', -⟩ := (row_settles (h r hr) now "").2
    exact ⟨r', hr'⟩
  · exact ⟨r, rfl⟩

theorem fail_range_of_limit {db : DB} (h : ∀ r ∈ db.queue, r.maxAttempts ≤ 32)
    (faults : List String) (jobID token errMsg : String) (now : ℕ) :
    fail (finalizer faults) db jobID token errMsg now ≠ .error .integerOutOfRange := by
  intro he
  unfold fail at he
  split at he
  · cases he
  next r hr =>
    obtain ⟨r', hr', -⟩ := (row_settles (h r (mem_of_find?_eq_some hr)) now errMsg).1
    rw [hr', ok_bind] at he
    simp only at he
    split at he
    · rcases bind_eq_error.1 he with hfin | ⟨_, -, he⟩
      · exact finalizer_range _ _ _ hfin
      · cases he
    · cases he

theorem recover_range_of_limit {db : DB} (h : ∀ r ∈ db.queue, r.maxAttempts ≤ 32)
    (faults : List String) (now staleClaimAt : ℕ) (locked : List String) :
    recoverStaleClaims (finalizer faults) db now staleClaimAt locked ≠ .error .integerOutOfRange := by
  intro he
  unfold recoverStaleClaims at he
  split at he
  · cases he
  obtain ⟨queue, hq⟩ := recoverBatch_ok h now (expired db.queue (now - staleClaimAt) locked)
  simp only [hq, ok_bind] at he
  rcases bind_eq_error.1 he with hfold | ⟨_, -, he⟩
  · obtain ⟨mid, job, hfin⟩ := foldlM_error hfold
    exact finalizer_range _ _ _ hfin
  · cases he

theorem neverStuck_of_limit {s : State} (h : ∀ r ∈ s.db.queue, r.maxAttempts ≤ 32) :
    NeverStuck s where
  failed r hr _ now errMsg := (row_settles (h r hr) now errMsg).1
  recovered r hr _ now := (row_settles (h r hr) now "").2
  fail_range := fail_range_of_limit h
  recover_range := recover_range_of_limit h
  batch now cutoff locked := recoverBatch_ok h now (expired s.db.queue cutoff locked)

def unary (i : ℕ) : String := String.ofList (List.replicate i 'x')

/-- Attempt `i` of the first job: claimed, and failed by its worker. -/
def attempt (i : ℕ) : List Op := [
  .claim (unary i) (100 * i * second) [],
  .fail "jq_a" (idgenNew "jqlock" (unary i)) "unreachable" (100 * i * second) [] .delivered]

/-- A job with the given limit fails 31 times and is claimed again; then a second job is
queued and claimed. -/
def exhausting (limit : ℤ) : List Op :=
  [.enqueue "a" .terminalCommand ⟨"", none, none, none, none⟩ limit 0] ++
    (List.range 31).flatMap attempt ++
    [.claim (unary 31) (3100 * second) [],
      .enqueue "b" .terminalCommand ⟨"", none, none, none, none⟩ 5 (3100 * second),
      .claim (unary 32) (3101 * second) []]

theorem exhausting_admits {configured : ℤ} (hmax : maxAttempts configured ≤ limit)
    (hfive : 5 ≤ limit) : ∀ op ∈ exhausting configured, Admits limit op := by
  intro op hop r hr
  simp only [exhausting, mem_append, mem_cons, mem_flatMap, attempt, not_mem_nil, or_false] at hop
  rcases hop with (rfl | ⟨i, -, rfl | rfl⟩) | rfl | rfl | rfl
  · cases hr
    exact hmax
  iterate 3 exact hr.elim
  · cases hr
    exact hfive
  · exact hr.elim

/-- After 32 attempts of 33 the job can be neither failed nor recovered. -/
theorem exhausting_stuck : recoverStaleClaims (finalizer []) (run step init (exhausting 33)).db
    (4000 * second) (60 * second) [] = .error .integerOutOfRange := by
  decide +kernel

/-- The arithmetic is safe in every run exactly when no job is admitted with more than 32
attempts. -/
theorem neverStuck_iff_limit (limit : ℕ) :
    (∀ ops, (∀ op ∈ ops, Admits limit op) → NeverStuck (run step init ops)) ↔ limit ≤ 32 := by
  constructor
  · intro h
    by_contra hlimit
    have hadmits : ∀ op ∈ exhausting 33, Admits limit op :=
      exhausting_admits (by change 33 ≤ limit; omega) (by omega)
    exact (h _ hadmits).recover_range [] _ _ [] exhausting_stuck
  · intro hlimit ops hops
    refine neverStuck_of_limit fun r hr => ?_
    exact (run_limit hops r hr).trans hlimit

/-- With the 50 attempts that runtime settings admit: the job that was claimed for the 32nd
time cannot be failed, and because of it a second job, stale after its first attempt, is not
recovered either. -/
theorem fifty_attempts_stuck :
    let s := run step init (exhausting 50)
    (s.db.queue.map fun r => (r.id, r.status, r.attempts, r.maxAttempts)) =
      [("jq_a", .processing, 32, 50), ("jq_b", .processing, 1, 5)] ∧
    fail (finalizer []) s.db "jq_a" (idgenNew "jqlock" (unary 31)) "unreachable" (3200 * second) =
      .error .integerOutOfRange ∧
    expired s.db.queue (3940 * second) [] = ["jq_a", "jq_b"] ∧
    recoverStaleClaims (finalizer []) s.db (4000 * second) (60 * second) [] =
      .error .integerOutOfRange := by
  decide +kernel

end LabTether.RetryBackoff
