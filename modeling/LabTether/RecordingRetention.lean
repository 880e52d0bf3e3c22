import LabTether.KeysetSweep
import LabTether.GoStrings
import LabTether.Transition

/-!
Retention of session recordings (`postgres_recording_retention.go`). A call reads one batch of
expired rows, removes their files, deletes the rows of the files that are gone and remembers
where to go on. What goes wrong in a call is an input: the transaction does not begin, a query
or a DELETE fails, the time is over when a row has its turn, a file cannot be looked at or
removed, the commit fails or its answer is lost. Files that were removed stay removed. Ids have
any linear order, as the collation of the database has it. Recordings start and stop from
outside, and a restart of the store forgets the cursor; the file of a recording has a name of
its own. Between the statements of one call nothing else happens to its rows, which it has
locked.
-/
namespace LabTether.RecordingRetention

open GoStrings KeysetSweep List

section

variable {ι : Type} [LinearOrder ι]

inductive Status
  | recording
  | completed
deriving DecidableEq

structure Recording (ι : Type) where
  id : ι
  path : String
  status : Status
  createdAt : ℕ
  stoppedAt : Option ℕ
deriving DecidableEq

/-- `COALESCE(stopped_at, created_at)` -/
def Recording.time (r : Recording ι) : ℕ := r.stoppedAt.getD r.createdAt

def Recording.key (r : Recording ι) : ℕ ×ₗ ι := toLex (r.time, r.id)

structure Recordings (ι : Type) where
  rows : List (Recording ι)
  ids : (rows.map Recording.id).Nodup
  paths : (rows.map Recording.path).Nodup

inductive FileKind
  | regular
  | other
deriving DecidableEq

/-- `recordingPruneCursor` -/
structure Cursor (ι : Type) where
  (time cutoff : ℕ)
  id : ι

def Cursor.key (c : Cursor ι) : ℕ ×ₗ ι := toLex (c.time, c.id)

structure Store (ι : Type) where
  recordings : Recordings ι
  files : String → Option FileKind
  cursor : Option (Cursor ι)

def Store.rows (s : Store ι) : List (Recording ι) := s.recordings.rows

def Recordings.keep (t : Recordings ι) (p : Recording ι → Bool) : Recordings ι where
  rows := t.rows.filter p
  ids := t.ids.sublist (filter_sublist.map _)
  paths := t.paths.sublist (filter_sublist.map _)

inductive Commit
  | succeeds
  | fails
  /-- The transaction is committed and the store does not learn of it. -/
  | lost

structure Call (ι : Type) where
  cutoff : ℕ
  (begins reads rereads : Bool)
  (locked expires : ι → Bool)
  stuck : String → Bool
  deletes : ι → Bool
  commit : Commit

def recordingPruneBatchSize : ℕ := 256

def Recording.expired (cutoff : ℕ) (r : Recording ι) : Bool :=
  decide (r.status ≠ .recording) && decide (r.time < cutoff)

variable (s : Store ι)

def readExpiredRecordingBatch (a : Call ι) (cutoff : ℕ) (cursor : Option (Cursor ι)) :
    List (Recording ι) :=
  batch Recording.key recordingPruneBatchSize (cursor.map Cursor.key)
    (s.rows.filter fun r => r.expired cutoff && !a.locked r.id)

def sweepCutoff (cursor : Option (Cursor ι)) (cutoff : ℕ) : ℕ :=
  match cursor with
  | some c => if c.cutoff < cutoff then c.cutoff else cutoff
  | none => cutoff

/-- The batch of a call, with its cutoff; an exhausted sweep starts again at once. -/
def selectBatch (a : Call ι) : Option (List (Recording ι) × ℕ) :=
  if a.begins = false ∨ a.reads = false then none
  else
    let cutoff := sweepCutoff s.cursor a.cutoff
    let found := readExpiredRecordingBatch s a cutoff s.cursor
    if found.isEmpty && s.cursor.isSome then
      if a.rereads = false then none
      else some (readExpiredRecordingBatch s a a.cutoff none, a.cutoff)
    else some (found, cutoff)

/-- `removeRecordingFile`; `none` is an error. -/
def removeRecordingFile (stuck : String → Bool) (files : String → Option FileKind) (path : String) :
    Option (String → Option FileKind) :=
  if trimSpace path = "" then none
  else if stuck path then none
  else match files path with
    | none => some files
    | some .other => none
    | some .regular => some (Function.update files path none)

/-- The loop over the batch: the files that are left, and the rows that are deleted unless it
breaks off. -/
def removeEach (a : Call ι) : List (Recording ι) → (String → Option FileKind) →
    (String → Option FileKind) × Option (List ι)
  | [], files => (files, some [])
  | item :: items, files =>
    if a.expires item.id then (files, none)
    else
      match removeRecordingFile a.stuck files item.path with
      | none => removeEach a items files
      | some files' =>
        if a.deletes item.id then
          ((removeEach a items files').1, (removeEach a items files').2.map (item.id :: ·))
        else (files', none)

def nextCursor (found : List (Recording ι)) (cutoff : ℕ) : Option (Cursor ι) :=
  if found.length = recordingPruneBatchSize then
    found.getLast?.map fun last => ⟨last.time, cutoff, last.id⟩
  else none

def Store.delete (ids : List ι) : Store ι :=
  { s with recordings := s.recordings.keep fun r => decide (r.id ∉ ids) }

/-- What a call returns: an error, or how many rows it has deleted and how many files it could
not remove. -/
inductive Outcome
  | broken
  | committed (deleted failed : ℕ)

def Outcome.isCommitted : Outcome → Bool
  | .broken => false
  | .committed _ _ => true

def pruneExpiredRecordings (a : Call ι) : Outcome × Store ι :=
  match selectBatch s a with
  | none => (.broken, s)
  | some (found, cutoff) =>
    match removeEach a found s.files with
    | (files, none) => (.broken, { s with files := files })
    | (files, some ids) =>
      match a.commit with
      | .fails => (.broken, { s with files := files })
      | .lost => (.broken, { s with files := files }.delete ids)
      | .succeeds =>
        (.committed ids.length (found.length - ids.length),
          { ({ s with files := files } : Store ι).delete ids with
            cursor := nextCursor found cutoff })

/-- `DefaultStartRecording`: the file is created, then the row. -/
def Store.start (s : Store ι) (id : ι) (path : String) (now : ℕ) : Store ι :=
  if h : id ∉ s.rows.map Recording.id ∧ path ∉ s.rows.map Recording.path then
    { s with
      files := Function.update s.files path (some .regular)
      recordings := {
        rows := ⟨id, path, .recording, now, none⟩ :: s.rows
        ids := nodup_cons.2 ⟨h.1, s.recordings.ids⟩
        paths := nodup_cons.2 ⟨h.2, s.recordings.paths⟩ } }
  else s

def Recording.stop (id : ι) (now : ℕ) (r : Recording ι) : Recording ι :=
  if r.id = id then { r with status := .completed, stoppedAt := some now } else r

theorem Recording.stop_id (id : ι) (now : ℕ) (r : Recording ι) : (r.stop id now).id = r.id := by
  unfold Recording.stop
  split_ifs <;> rfl

theorem Recording.stop_path (id : ι) (now : ℕ) (r : Recording ι) : (r.stop id now).path = r.path := by
  unfold Recording.stop
  split_ifs <;> rfl

/-- `DefaultStopRecording` -/
def Store.stop (s : Store ι) (id : ι) (now : ℕ) : Store ι :=
  { s with
    recordings := {
      rows := s.rows.map (Recording.stop id now)
      ids := by
        have h : Recording.id ∘ Recording.stop id now = Recording.id :=
          funext fun r => Recording.stop_id id now r
        rw [map_map, h]
        exact s.recordings.ids
      paths := by
        have h : Recording.path ∘ Recording.stop id now = Recording.path :=
          funext fun r => Recording.stop_path id now r
        rw [map_map, h]
        exact s.recordings.paths } }

inductive Event (ι : Type)
  | prune (a : Call ι)
  | restart
  | start (id : ι) (path : String) (now : ℕ)
  | stop (id : ι) (now : ℕ)

def Store.step (s : Store ι) : Event ι → Store ι
  | .prune a => (pruneExpiredRecordings s a).2
  | .restart => { s with cursor := none }
  | .start id path now => s.start id path now
  | .stop id now => s.stop id now

end

end LabTether.RecordingRetention
