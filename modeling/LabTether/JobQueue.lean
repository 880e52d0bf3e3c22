import LabTether.JobRecords
import LabTether.Transaction

/-!
The durable job queue: `Enqueue`, `Claim`, `RenewClaim`, `Complete`, `Fail`,
`RecoverStaleClaims` and `PurgeOldJobs` of `internal/jobqueue`.
Each is one SQL statement or one transaction. Rows that another transaction holds
locked are an argument of the statements that skip them (`SKIP LOCKED`), and the
dead-letter finalizer is an argument of the two transactions that call it.
`Move` collects what a statement can do to one queue row; every fact about the
queue over runs is derived from it.
-/
namespace LabTether.JobQueue

open Table Transaction List Change

/-- One second of `make_interval(secs => n)`. -/
def second : ℕ := 1000000

def validateKind : JobKind → Except Err Unit
  | .other name => .error (.message ("invalid job kind: \"" ++ name ++ "\""))
  | _ => .ok ()

/-- `Queue.MaxAttempts` for a configured value. -/
def maxAttempts (configured : ℤ) : ℕ :=
  if configured ≤ 0 then 5 else configured.toNat

/-- The row that `Enqueue` and a schedule claim insert. -/
def newRow (id : String) (kind : JobKind) (payload : Payload) (maxAttempts now : ℕ) : JobRow where
  id := id
  kind := kind
  status := .queued
  payload := payload
  attempts := 0
  maxAttempts := maxAttempts
  error := ""
  createdAt := now
  updatedAt := now
  availableAt := now
  lockedAt := none
  completedAt := none
  lockToken := none

variable (db : DB)

def enqueue (id : String) (kind : JobKind) (payload : Payload) (configured : ℤ) (now : ℕ) :
    Except Err (String × DB) := do
  validateKind kind
  match insertRow JobRow.id (newRow id kind payload (maxAttempts configured) now) db.queue with
  | none => .error .database
  | some queue => .ok (id, { db with queue := queue })

/-- `ORDER BY available_at ASC, created_at ASC`. -/
def ClaimBefore (a b : JobRow) : Prop :=
  a.availableAt < b.availableAt ∨ (a.availableAt = b.availableAt ∧ a.createdAt ≤ b.createdAt)
  deriving Decidable

/-- The oldest available row that no other transaction has locked. -/
def nextQueued (queue : List JobRow) (now : ℕ) (locked : List String) : Option JobRow :=
  ((queue.filter fun r => r.status = .queued && r.availableAt ≤ now && r.id ∉ locked).insertionSort
    ClaimBefore).head?

def claimRow (token : String) (now : ℕ) (r : JobRow) : JobRow :=
  { r with
    status := .processing
    lockedAt := some now
    attempts := r.attempts + 1
    updatedAt := now
    lockToken := some token }

/-- `Claim`: the job a worker gets, if one is available. -/
def claim (token : String) (now : ℕ) (locked : List String) : Option Job × DB :=
  match nextQueued db.queue now locked with
  | none => (none, db)
  | some r =>
    (some (scanJob (claimRow token now r)),
      { db with queue := updateWhere (fun x => x.id = r.id) (claimRow token now) db.queue })

variable (jobID : String)

/-- `WHERE id = $ AND status = 'processing' AND lock_token = $`. -/
def HoldsClaim (token : String) (r : JobRow) : Prop :=
  r.id = jobID ∧ r.status = .processing ∧ r.lockToken = some token
  deriving Decidable

variable (now : ℕ)

def renewRow (r : JobRow) : JobRow :=
  { r with lockedAt := some now, updatedAt := now }

def completeRow (r : JobRow) : JobRow :=
  { r with
    status := .completed
    completedAt := some now
    updatedAt := now
    lockedAt := none
    lockToken := none }

/-- An UPDATE of the claimed row; no row matched is `ErrClaimLost`. -/
def updateClaimed (token : String) (f : JobRow → JobRow) : Except Err (Unit × DB) :=
  if ∃ r ∈ db.queue, HoldsClaim jobID token r then
    .ok ((), { db with queue := updateWhere (fun r => HoldsClaim jobID token r) f db.queue })
  else .error .claimLost

def renewClaim (token : String) (now : ℕ) : Except Err (Unit × DB) :=
  updateClaimed db jobID token (renewRow now)

def complete (token : String) (now : ℕ) : Except Err (Unit × DB) :=
  updateClaimed db jobID token (completeRow now)

/-- `LEAST(30, CAST(power(2, GREATEST(attempts - 1, 0)) AS int))`: the cast is evaluated
first and fails outside the 32-bit range. -/
def backoffSeconds (attempts : ℕ) : Except Err ℕ :=
  if 2 ^ (attempts - 1) < 2 ^ 31 then .ok (min 30 (2 ^ (attempts - 1)))
  else .error .integerOutOfRange

def requeueRow (availableAt : ℕ) (error : String) (completedAt : Option ℕ) (r : JobRow) :
    JobRow :=
  { r with
    status := .queued
    error := error
    updatedAt := now
    availableAt := availableAt
    lockedAt := none
    lockToken := none
    completedAt := completedAt }

def deadRow (error : String) (r : JobRow) : JobRow :=
  { r with
    status := .deadLettered
    error := error
    updatedAt := now
    lockedAt := none
    lockToken := none
    completedAt := some now }

def failRow (errMsg : String) (r : JobRow) : Except Err JobRow :=
  if r.maxAttempts ≤ r.attempts then .ok (deadRow now errMsg r)
  else do
    let delay ← backoffSeconds r.attempts
    .ok (requeueRow now (now + delay * second) errMsg r.completedAt r)

/-- The SET list of `RecoverStaleClaims`. -/
def recoverRow (r : JobRow) : Except Err JobRow :=
  if r.maxAttempts ≤ r.attempts then
    .ok (deadRow now (if r.error = "" then "job claim timed out after max attempts" else r.error) r)
  else do
    let delay ← backoffSeconds r.attempts
    .ok (requeueRow now (now + delay * second)
      (if r.error = "" then "job claim timed out; retrying" else r.error) none r)

/-- `DeadLetterFinalizer`. -/
abbrev Finalizer := DB → Job → Except Err DB

def fail (finalize : Finalizer) (db : DB) (jobID token errMsg : String) (now : ℕ) :
    Except Err (Unit × DB) :=
  match db.queue.find? (fun r => HoldsClaim jobID token r) with
  | none => .error .claimLost
  | some r => do
    let r' ← failRow now errMsg r
    let db' := { db with queue := updateWhere (fun x => HoldsClaim jobID token x) (fun _ => r') db.queue }
    if r'.status = .deadLettered then
      let db'' ← finalize db' (scanJob r')
      .ok ((), db'')
    else .ok ((), db')

/-- `ORDER BY locked_at, id`. -/
def StaleBefore (a b : JobRow) : Prop :=
  a.lockedAt.getD 0 < b.lockedAt.getD 0 ∨ (a.lockedAt.getD 0 = b.lockedAt.getD 0 ∧ a.id ≤ b.id)
  deriving Decidable

def isStale (cutoff : ℕ) (locked : List String) (r : JobRow) : Bool :=
  r.status = .processing && r.lockedAt.isSome && r.lockedAt.getD 0 < cutoff && r.id ∉ locked

/-- The ids of the batch: at most 100 stale rows, oldest claim first. -/
def expired (queue : List JobRow) (cutoff : ℕ) (locked : List String) : List String :=
  (((queue.filter (isStale cutoff locked)).insertionSort StaleBefore).take 100).map JobRow.id

/-- The batched UPDATE; one failing row fails the statement. -/
def recoverBatch (ids : List String) (queue : List JobRow) : Except Err (List JobRow) :=
  queue.mapM fun r => if r.id ∈ ids then recoverRow now r else .ok r

def deadJobs (ids : List String) (queue : List JobRow) : List Job :=
  (queue.filter fun r => r.id ∈ ids && r.status = .deadLettered).map scanJob

/-- `Queue.RecoverStaleClaims`; returns the jobs it dead-lettered. -/
def recoverStaleClaims (finalize : Finalizer) (db : DB) (now staleClaimAt : ℕ)
    (locked : List String) : Except Err (List Job × DB) :=
  if staleClaimAt = 0 then .ok ([], db)
  else do
    let ids := expired db.queue (now - staleClaimAt) locked
    let queue ← recoverBatch now ids db.queue
    let db' ← (deadJobs ids queue).foldlM finalize (db.withQueue queue)
    .ok (deadJobs ids queue, db')

def isPurgeable (olderThan : ℕ) (r : JobRow) : Bool :=
  r.status.isTerminal && r.updatedAt < olderThan

def purgeOldJobs (olderThan : ℕ) : DB :=
  { db with queue := deleteWhere (isPurgeable olderThan) db.queue }

section

variable (issued issued' : List String)

/-- What a statement can do to one queue row. `issued` and `issued'` are the ids and lock
tokens handed out before and after it; a claim brings a new token. -/
inductive Move : JobRow → JobRow → Prop
  | claim (r : JobRow) (token : String) (now : ℕ) (hq : r.status = .queued)
      (hfresh : token ∉ issued) (hnew : token ∈ issued') : Move r (claimRow token now r)
  | renew (r : JobRow) (now : ℕ) (hp : r.status = .processing) : Move r (renewRow now r)
  | complete (r : JobRow) (now : ℕ) (hp : r.status = .processing) : Move r (completeRow now r)
  | requeue (r : JobRow) (now availableAt : ℕ) (error : String) (completedAt : Option ℕ)
      (hp : r.status = .processing) (ha : r.attempts < r.maxAttempts) :
      Move r (requeueRow now availableAt error completedAt r)
  | deadLetter (r : JobRow) (now : ℕ) (error : String) (hp : r.status = .processing)
      (ha : r.maxAttempts ≤ r.attempts) : Move r (deadRow now error r)

structure IsNew (r : JobRow) : Prop where
  queued : r.status = .queued
  attempts : r.attempts = 0
  maxAttempts : 1 ≤ r.maxAttempts
  lockedAt : r.lockedAt = none
  lockToken : r.lockToken = none

variable {issued issued'} {r r' : JobRow}

section

variable (h : Move issued issued' r r')
include h

theorem Move.id_eq : r'.id = r.id := by
  cases h <;> rfl

theorem Move.kind_eq : r'.kind = r.kind := by
  cases h <;> rfl

theorem Move.payload_eq : r'.payload = r.payload := by
  cases h <;> rfl

theorem Move.maxAttempts_eq : r'.maxAttempts = r.maxAttempts := by
  cases h <;> rfl

/-- No statement touches a completed or dead-lettered row. -/
theorem Move.not_terminal : r.status.isTerminal = false := by
  cases h <;> simp_all [JobStatus.isTerminal]

end

theorem maxAttempts_pos (configured : ℤ) : 1 ≤ maxAttempts configured := by
  unfold maxAttempts
  split <;> omega

theorem newRow_isNew (id : String) (kind : JobKind) (payload : Payload) {limit : ℕ} (now : ℕ)
    (h : 1 ≤ limit) : IsNew (newRow id kind payload limit now) :=
  ⟨rfl, rfl, h, rfl, rfl⟩

theorem failRow_move {now : ℕ} {errMsg : String} (hp : r.status = .processing)
    (h : failRow now errMsg r = .ok r') : Move issued issued' r r' := by
  unfold failRow at h
  split at h
  next ha =>
    cases h
    exact .deadLetter r now errMsg hp ha
  next ha =>
    obtain ⟨delay, -, h⟩ := bind_eq_ok.1 h
    cases h
    exact .requeue r now _ errMsg _ hp (by omega)

theorem recoverRow_move {now : ℕ} (hp : r.status = .processing)
    (h : recoverRow now r = .ok r') : Move issued issued' r r' := by
  unfold recoverRow at h
  split at h
  next ha =>
    cases h
    exact .deadLetter r now _ hp ha
  next ha =>
    obtain ⟨delay, -, h⟩ := bind_eq_ok.1 h
    cases h
    exact .requeue r now _ _ _ hp (by omega)

end

section

variable {issued issued' : List String} {db db' : DB} {New Gone : JobRow → Prop} {now : ℕ}
  {jobID : String} {id : String}

theorem enqueue_queue {kind : JobKind} {payload : Payload} {configured : ℤ}
    (h : enqueue db id kind payload configured now = .ok (jobID, db')) :
    ∃ queue, insertRow JobRow.id (newRow id kind payload (maxAttempts configured) now) db.queue =
      some queue ∧ db' = { db with queue := queue } := by
  obtain ⟨-, -, h⟩ := bind_eq_ok.1 h
  split at h
  · cases h
  next queue hq =>
    cases h
    exact ⟨queue, hq, rfl⟩

variable {locked : List String} {queue : List JobRow} {r : JobRow}

theorem nextQueued_mem
    (h : nextQueued queue now locked = some r) : r ∈ queue ∧ r.status = .queued := by
  have hmem := mem_of_mem_head? h
  rw [mem_insertionSort, mem_filter] at hmem
  simp_all

variable {token : String}

theorem claim_change (hkey : Keyed JobRow.id db.queue) (hfresh : token ∉ issued)
    (hnew : token ∈ issued') (now : ℕ) (locked : List String) :
    Change JobRow.id (Move issued issued') New Gone db.queue (claim db token now locked).2.queue := by
  unfold claim
  split
  · exact refl _
  next r hr =>
    obtain ⟨hmem, hq⟩ := nextQueued_mem hr
    refine updateWhere fun x hx hid => ?_
    have hxr : x = r := hkey.eq hx hmem (by simpa using hid)
    exact .claim x token now (hxr ▸ hq) hfresh hnew

variable {f : JobRow → JobRow}

theorem updateClaimed_ok (h : updateClaimed db jobID token f = .ok ((), db')) :
    db' = { db with queue := updateWhere (fun r => HoldsClaim jobID token r) f db.queue } := by
  unfold updateClaimed at h
  split at h
  all_goals cases h
  rfl

theorem updateClaimed_change (hf : ∀ r, r.status = .processing → Move issued issued' r (f r))
    (h : updateClaimed db jobID token f = .ok ((), db')) :
    Change JobRow.id (Move issued issued') New Gone db.queue db'.queue := by
  obtain rfl := updateClaimed_ok h
  refine updateWhere fun r _ hr => hf r ?_
  have hclaim : HoldsClaim jobID token r := by simpa using hr
  exact hclaim.2.1

variable {finalize : Finalizer} {errMsg : String}

theorem fail_ok (h : fail finalize db jobID token errMsg now = .ok ((), db')) :
    ∃ r r', r ∈ db.queue ∧ HoldsClaim jobID token r ∧ failRow now errMsg r = .ok r' ∧
      ∃ mid : DB, mid = { db with
          queue := updateWhere (fun x => HoldsClaim jobID token x) (fun _ => r') db.queue } ∧
        (if r'.status = .deadLettered then finalize mid (scanJob r') = .ok db' else db' = mid) := by
  unfold fail at h
  split at h
  · cases h
  next r hr =>
    obtain ⟨r', hr', h⟩ := bind_eq_ok.1 h
    refine ⟨r, r', mem_of_find?_eq_some hr, by simpa using find?_some hr, hr', _, rfl, ?_⟩
    split at h
    next hdead =>
      rw [if_pos hdead]
      obtain ⟨db'', hfin, h⟩ := bind_eq_ok.1 h
      cases h
      exact hfin
    next hlive =>
      rw [if_neg hlive]
      cases h
      rfl

theorem failRow_change (hkey : Keyed JobRow.id db.queue) {r' : JobRow} (hr : r ∈ db.queue)
    (hclaim : HoldsClaim jobID token r) (h : failRow now errMsg r = .ok r') :
    Change JobRow.id (Move issued issued') New Gone db.queue
      (updateWhere (fun x => HoldsClaim jobID token x) (fun _ => r') db.queue) := by
  refine updateWhere fun x hx hxc => ?_
  have hxclaim : HoldsClaim jobID token x := by simpa using hxc
  have hxr : x = r := hkey.eq hx hr (hxclaim.1.trans hclaim.1.symm)
  rw [hxr]
  exact failRow_move hclaim.2.1 h

variable {cutoff : ℕ}

theorem expired_subset (h : id ∈ expired queue cutoff locked) :
    ∃ r ∈ queue, r.id = id ∧ isStale cutoff locked r = true := by
  obtain ⟨r, hr, rfl⟩ := mem_map.1 h
  have hmem := mem_of_mem_take hr
  rw [mem_insertionSort, mem_filter] at hmem
  exact ⟨r, hmem.1, rfl, hmem.2⟩

theorem isStale_processing (h : isStale cutoff locked r = true) : r.status = .processing := by
  simp only [isStale, Bool.and_eq_true, decide_eq_true_eq] at h
  exact h.1.1.1

theorem recoverStaleClaims_ok {now staleClaimAt : ℕ} {dead : List Job}
    (h : recoverStaleClaims finalize db now staleClaimAt locked = .ok (dead, db')) :
    (dead = [] ∧ db' = db) ∨ ∃ ids queue, ids = expired db.queue (now - staleClaimAt) locked ∧
        recoverBatch now ids db.queue = .ok queue ∧
        dead = deadJobs ids queue ∧ dead.foldlM finalize (db.withQueue queue) = .ok db' := by
  unfold recoverStaleClaims at h
  split at h
  · cases h
    exact .inl ⟨rfl, rfl⟩
  obtain ⟨queue, hq, h⟩ := bind_eq_ok.1 h
  obtain ⟨db'', hfold, h⟩ := bind_eq_ok.1 h
  cases h
  exact .inr ⟨_, queue, rfl, hq, rfl, hfold⟩

theorem recoverBatch_change (hkey : Keyed JobRow.id db.queue) {now : ℕ}
    (h : recoverBatch now (expired db.queue cutoff locked) db.queue = .ok queue) :
    Change JobRow.id (Move issued issued') New Gone db.queue queue := by
  obtain ⟨hmap, hall⟩ := mapM_eq_ok h
  rw [hmap]
  refine .rewrite _ _ fun r hr => ?_
  obtain ⟨r', hr'⟩ := hall r hr
  simp only [hr']
  split at hr'
  next hid =>
    obtain ⟨x, hx, hxid, hstale⟩ := expired_subset hid
    have hxr : x = r := hkey.eq hx hr hxid
    exact .inr (recoverRow_move (isStale_processing (hxr ▸ hstale)) hr')
  · cases hr'
    exact .inl rfl

end

end LabTether.JobQueue
