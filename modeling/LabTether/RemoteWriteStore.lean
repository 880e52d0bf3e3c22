import LabTether.RemoteWriteBatch

/-!
The durable side of the export: the replay cursor of one endpoint and the pages a receiver
rejected for good (`LoadRemoteWriteCursor`, `SaveRemoteWriteCursor` and
`RejectRemoteWritePage`). Each is one statement or one transaction on the singleton row,
and each result here is the state it would commit.
-/
namespace LabTether.RemoteWrite

/-- `permanentReceiverStatus`: a client error other than "too many requests". -/
def permanentReceiverStatus (status : ℕ) : Prop := 400 ≤ status ∧ status < 500 ∧ status ≠ 429
  deriving Decidable

def maxRejectedPages : ℕ := 64
def maxRejectedPayloadBytes : ℕ := 64 * 1024 * 1024
def maxRequestBodyBytes : ℕ := 4 * 1024 * 1024

/-- A rejected request, with the body that was sent. -/
structure RejectedPage where
  (previous next : Cursor)
  (statusCode sampleCount : ℕ)
  payload : List UInt8
  rejectedAt : ℤ
deriving DecidableEq

/-- `RejectedPage.Validate`. -/
def RejectedPage.Valid (p : RejectedPage) : Prop :=
  p.next.notBehind p.previous ∧ p.next.advances p.previous ∧ permanentReceiverStatus p.statusCode ∧
    1 ≤ p.sampleCount ∧ p.sampleCount ≤ maxSamplesPerRequest ∧
    p.payload ≠ [] ∧ p.payload.length ≤ maxRequestBodyBytes ∧ p.rejectedAt ≠ Telemetry.zeroTime
  deriving Decidable

/-- The row of `prometheus_remote_write_state`. -/
structure CursorRow where
  endpointFingerprint : String
  cursor : Cursor
deriving DecidableEq

structure Rejection where
  endpointFingerprint : String
  page : RejectedPage
deriving DecidableEq

structure Store where
  state : Option CursorRow
  rejections : List Rejection
deriving DecidableEq

inductive StoreError
  | invalid
  | database
  | notAdvanced
  | ownerChanged
  | storeFull

/-- `^[0-9a-f]{64}$`. -/
def validFingerprint (fingerprint : String) : Bool :=
  fingerprint.length = 64 &&
    fingerprint.toList.all fun c => ('0' ≤ c ∧ c ≤ '9') ∨ ('a' ≤ c ∧ c ≤ 'f')

variable (store : Store)

/-- The cursor that the upsert returns; another endpoint starts over. -/
def cursorFor (fingerprint : String) : Cursor :=
  match store.state with
  | some row => if row.endpointFingerprint = fingerprint then row.cursor else ⟨0, 0⟩
  | none => ⟨0, 0⟩

def loadRemoteWriteCursor (fingerprint : String) :
    Except StoreError (Cursor × Store) :=
  if validFingerprint fingerprint = false then .error .invalid
  else .ok (cursorFor store fingerprint,
    { store with state := some ⟨fingerprint, cursorFor store fingerprint⟩ })

def saveRemoteWriteCursor (fingerprint : String) (cursor : Cursor) (advancedAt : ℤ) :
    Except StoreError (Unit × Store) :=
  if validFingerprint fingerprint = false ∨ advancedAt = Telemetry.zeroTime then .error .invalid
  else
    match store.state with
    | none => .error .notAdvanced
    | some row =>
      if row.endpointFingerprint = fingerprint ∧ cursor.notBehind row.cursor then
        .ok ((), { store with state := some ⟨fingerprint, cursor⟩ })
      else .error .notAdvanced

def Rejection.key (r : Rejection) : String × Cursor × Cursor × ℤ :=
  (r.endpointFingerprint, r.page.previous, r.page.next, r.page.rejectedAt)

def rejectedBytes : ℕ := (store.rejections.map fun r => r.page.payload.length).sum

def rejectRemoteWritePage (fingerprint : String) (page : RejectedPage) :
    Except StoreError (Unit × Store) :=
  if validFingerprint fingerprint = false ∨ ¬ page.Valid then .error .invalid
  else
    match store.state with
    | none => .error .database
    | some row =>
      if row.endpointFingerprint ≠ fingerprint then .error .ownerChanged
      else if row.cursor ≠ page.previous then
        -- an earlier commit may have succeeded without an answer
        if ⟨fingerprint, page⟩ ∈ store.rejections ∧ row.cursor.notBehind page.next then
          .ok ((), store)
        else .error .ownerChanged
      else if maxRejectedPages ≤ store.rejections.length ∨
          maxRejectedPayloadBytes < rejectedBytes store + page.payload.length then
        .error .storeFull
      else if Rejection.key ⟨fingerprint, page⟩ ∈ store.rejections.map Rejection.key then
        .error .database
      else .ok ((), ⟨some ⟨fingerprint, page.next⟩, store.rejections ++ [⟨fingerprint, page⟩]⟩)

section

variable {store store' : Store} {fingerprint : String} {cursor : Cursor}

theorem loadRemoteWriteCursor_ok
    (h : loadRemoteWriteCursor store fingerprint = .ok (cursor, store')) :
    cursor = cursorFor store fingerprint ∧
      store' = { store with state := some ⟨fingerprint, cursor⟩ } := by
  unfold loadRemoteWriteCursor at h
  split at h
  · cases h
  · cases h
    exact ⟨rfl, rfl⟩

theorem saveRemoteWriteCursor_ok {now : ℤ}
    (h : saveRemoteWriteCursor store fingerprint cursor now = .ok ((), store')) :
    ∃ row, store.state = some row ∧ cursor.notBehind row.cursor ∧
      store' = { store with state := some ⟨fingerprint, cursor⟩ } := by
  revert h
  fun_cases saveRemoteWriteCursor store fingerprint cursor now
  all_goals rintro ⟨⟩
  rename_i row hrow hcond
  exact ⟨row, hrow, hcond.2, rfl⟩

variable {page : RejectedPage} (h : rejectRemoteWritePage store fingerprint page = .ok ((), store'))
include h

theorem rejectRemoteWritePage_ok :
    ∃ row, store.state = some row ∧ row.endpointFingerprint = fingerprint ∧ page.Valid ∧
      ((row.cursor ≠ page.previous ∧ ⟨fingerprint, page⟩ ∈ store.rejections ∧ store' = store) ∨
        (row.cursor = page.previous ∧
          store' = ⟨some ⟨fingerprint, page.next⟩, store.rejections ++ [⟨fingerprint, page⟩]⟩)) := by
  unfold rejectRemoteWritePage at h
  repeat' split at h
  all_goals cases h
  · exact ⟨_, ‹_›, by tauto, by tauto, .inl ⟨‹_›, by tauto, rfl⟩⟩
  · exact ⟨_, ‹_›, by tauto, by tauto, .inr ⟨by tauto, rfl⟩⟩

theorem rejectRemoteWritePage_again :
    rejectRemoteWritePage store' fingerprint page = .ok ((), store') := by
  obtain ⟨row, hrow, hfp, hvalid, ⟨_, _, rfl⟩ | ⟨_, rfl⟩⟩ := rejectRemoteWritePage_ok h
  · exact h
  have hfingerprint : validFingerprint fingerprint = true := by
    by_contra hbad
    rw [rejectRemoteWritePage, if_pos (by simp_all)] at h
    cases h
  have hmoved : page.next ≠ page.previous := by
    intro heq
    have hadv := hvalid.2.1
    rw [heq] at hadv
    rcases hadv with hadv | hadv <;> exact lt_irrefl _ hadv
  unfold rejectRemoteWritePage
  rw [if_neg (by simp [hfingerprint, hvalid])]
  simp [hmoved, Cursor.notBehind]

end

end LabTether.RemoteWrite
