import LabTether.RemoteWriteStore
import LabTether.Table
import LabTether.Transition

/-!
The export worker (`internal/telemetry/remotewrite/worker.go`, `rejected_page.go`) beside the
transactions of `AppendSamples` that fill the two sample tables. Every query, request and commit
is a step of its own, and any of them may fail. A row draws its id when it is inserted and
becomes visible when its transaction commits; ids of a transaction that rolled back are lost.
Rows go away through retention, compaction and the deletion of their asset. The hub runs one
worker at a time and waits for it before it starts another, so a stopped worker has no statement
left to run. A worker may try again at any time.
-/
namespace LabTether.RemoteWrite

open Paging Table Transaction

/-- An open transaction of `AppendSamples`, with the rows it inserted. -/
structure Tx where
  id : ℕ
  assets : List AssetSampleRow
  hubs : List HubSampleRow

/-- The committed rows, the last ids drawn and the open transactions. `high` holds the
highest ids that were ever visible; no code reads it. -/
structure Tables where
  assetRows : List AssetSampleRow
  hubRows : List HubSampleRow
  (lastAssetID lastHubID : ℕ)
  txs : List Tx
  high : Cursor

inductive TableOp
  | begin (tx : ℕ)
  | insertAsset (tx : ℕ) (row : AssetSampleRow)
  | insertHub (tx : ℕ) (row : HubSampleRow)
  | commit (tx : ℕ)
  | rollback (tx : ℕ)
  | delete (assetIDs hubIDs : List ℕ)

variable (t : Tables)

def Tables.tx (id : ℕ) : Option Tx := t.txs.find? fun tx => tx.id = id

def Tables.putTx (tx : Tx) : Tables :=
  { t with txs := t.txs.map fun other => if other.id = tx.id then tx else other }

def Tables.dropTx (id : ℕ) : Tables :=
  { t with txs := t.txs.filter fun tx => tx.id ≠ id }

/-- Another open transaction wrote to the scope, and holds its advisory lock. -/
def Tables.scopeLocked (tx : ℕ) (scope : String) : Bool :=
  t.txs.any fun other => other.id ≠ tx && other.hubs.any fun row => row.scope = scope

def highest (high : ℕ) (ids : List ℕ) : ℕ := ids.foldl max high

def Tables.commitTx (tx : Tx) : Tables :=
  { t.dropTx tx.id with
    assetRows := t.assetRows ++ tx.assets
    hubRows := t.hubRows ++ tx.hubs
    high := ⟨highest t.high.assetSampleID (tx.assets.map AssetSampleRow.id),
      highest t.high.hubSampleID (tx.hubs.map HubSampleRow.id)⟩ }

def tableStep : TableOp → Tables
  | .begin id => if (t.tx id).isSome then t else { t with txs := t.txs ++ [⟨id, [], []⟩] }
  | .insertAsset id row =>
    match t.tx id with
    | none => t
    | some tx =>
      { t.putTx { tx with assets := tx.assets ++ [{ row with id := t.lastAssetID + 1 }] } with
        lastAssetID := t.lastAssetID + 1 }
  | .insertHub id row =>
    match t.tx id with
    | none => t
    | some tx =>
      -- the insert waits for the lock of its scope
      if t.scopeLocked id row.scope then t
      else
        { t.putTx { tx with hubs := tx.hubs ++ [{ row with id := t.lastHubID + 1 }] } with
          lastHubID := t.lastHubID + 1 }
  | .commit id =>
    match t.tx id with
    | none => t
    | some tx => t.commitTx tx
  | .rollback id => t.dropTx id
  | .delete assetIDs hubIDs =>
    { t with
      assetRows := deleteWhere (fun row => row.id ∈ assetIDs) t.assetRows
      hubRows := deleteWhere (fun row => row.id ∈ hubIDs) t.hubRows }

structure Reading where
  previous : Cursor
  assets : List AssetSampleRow
  hubs : List HubSampleRow
deriving DecidableEq

def Reading.next (r : Reading) : Cursor :=
  ⟨lastKey AssetSampleRow.id r.previous.assetSampleID r.assets,
    lastKey HubSampleRow.id r.previous.hubSampleID r.hubs⟩

/-- A page as `SamplesAfter` returned it, with the rows it was built from. -/
structure Page extends Reading where
  batch : Batch
deriving DecidableEq

/-- The receiver's answer; `failed` covers every request without one. -/
inductive Answer
  | success
  | status (code : ℕ)
  | failed

inductive Serialized
  | tooLarge
  | failed
  | body (payload : List UInt8)

inductive Stage
  | assets
  | hubs
  | extra
deriving DecidableEq

inductive Phase
  | idle
  | querying (reading : Reading) (limit : ℕ) (stage : Stage)
  /-- a page with samples, before its request -/
  | paged (page : Page) (limit : ℕ)
  /-- a page whose cursor is to be saved -/
  | accepted (page : Page)
deriving DecidableEq

/-- `pendingRejectedPage`. The page it came from is kept for the history only. -/
structure Pending where
  page : Page
  record : RejectedPage

structure Worker where
  fingerprint : String
  pending : Option Pending
  phase : Phase

/-- What the worker did for the endpoint that owns the cursor row. -/
inductive Event
  | read (page : Page)
  | sent (page : Page) (answer : Answer)
  | rejected (page : Page) (record : RejectedPage)

structure State where
  tables : Tables
  store : Store
  worker : Option Worker
  /-- The events since the cursor row was created, or given to its endpoint. -/
  history : List Event

inductive WorkerOp
  | start (fingerprint : String)
  | stop
  | load (ack : Ack)
  | query
  | queryFails
  | push (serialized : Serialized) (answer : Answer) (now : ℤ)
  | save (now : ℤ) (ack : Ack)
  | persist (ack : Ack)

variable (s : State) (w : Worker)

def State.inPhase (phase : Phase) : State :=
  { s with worker := some { w with phase := phase } }

def State.record (event : Event) : State := { s with history := s.history ++ [event] }

def State.owner : Option String := s.store.state.map CursorRow.endpointFingerprint

def firstQuery (current : Cursor) (limit : ℕ) : Phase := .querying ⟨current, [], []⟩ limit .assets

/-- The cursor is loaded; another endpoint's history ends here. -/
def load (ack : Ack) : State :=
  let result := commit ack .database s.store (loadRemoteWriteCursor s.store w.fingerprint)
  let loaded : State := { s with
    store := result.2
    history := if s.owner = result.2.state.map CursorRow.endpointFingerprint then s.history else [] }
  match result.1 with
  | .error _ => loaded
  | .ok current => loaded.inPhase w (firstQuery current maxSamplesPerRequest)

/-- What `pushPage` makes of a page before it sends anything. -/
def pageChecked (page : Page) (limit : ℕ) : Phase :=
  if limit < page.batch.samples.length ∨ ¬ page.batch.next.notBehind page.previous ∨
      (page.batch.samples ≠ [] ∧ ¬ page.batch.next.advances page.previous) then .idle
  else if page.batch.samples = [] ∧ ¬ page.batch.next.advances page.previous then .idle
  else if page.batch.samples = [] then .accepted page
  else .paged page limit

def pageRead (r : Reading) (limit : ℕ) : State :=
  match batchAfter r.previous limit r.assets r.hubs with
  | .error _ => s.inPhase w .idle
  | .ok batch => (s.record (.read ⟨r, batch⟩)).inPhase w (pageChecked ⟨r, batch⟩ limit)

def assetsAfter (afterID limit : ℕ) : List AssetSampleRow :=
  page AssetSampleRow.id afterID limit t.assetRows

def hubsAfter (afterID limit : ℕ) : List HubSampleRow :=
  page HubSampleRow.id afterID limit t.hubRows

def withExtra (r : Reading) (limit : ℕ) : Reading :=
  match extraQuery r.previous limit r.assets r.hubs with
  | .none => r
  | .assets afterID n => { r with assets := r.assets ++ assetsAfter t afterID n }
  | .hubs afterID n => { r with hubs := r.hubs ++ hubsAfter t afterID n }

def query (r : Reading) (limit : ℕ) : Stage → State
  | .assets =>
    let rows := assetsAfter s.tables r.previous.assetSampleID (assetLimit limit)
    s.inPhase w (.querying { r with assets := rows } limit .hubs)
  | .hubs =>
    let rows := hubsAfter s.tables r.previous.hubSampleID (hubLimit limit)
    s.inPhase w (.querying { r with hubs := rows } limit .extra)
  | .extra => pageRead s w (withExtra s.tables r limit) limit

def shrunk (page : Page) (limit : ℕ) : Phase := firstQuery page.previous (max 1 (limit / 2))

def rejection (page : Page) (code : ℕ) (payload : List UInt8) (now : ℤ) : RejectedPage :=
  ⟨page.previous, page.batch.next, code, page.batch.samples.length, payload, now⟩

def answered (page : Page) (limit : ℕ) (payload : List UInt8) (answer : Answer) (now : ℤ) : State :=
  let s := s.record (.sent page answer)
  match answer with
  | .success => s.inPhase w (.accepted page)
  | .failed => s.inPhase w .idle
  | .status code =>
    if code = 413 ∧ 1 < limit then s.inPhase w (shrunk page limit)
    else if permanentReceiverStatus code then
      { s with worker := some ⟨w.fingerprint, some ⟨page, rejection page code payload now⟩, .idle⟩ }
    else s.inPhase w .idle

def push (page : Page) (limit : ℕ) (serialized : Serialized) (answer : Answer) (now : ℤ) : State :=
  match serialized with
  | .tooLarge => s.inPhase w (if 1 < limit then shrunk page limit else .idle)
  | .failed => s.inPhase w .idle
  | .body payload =>
    if payload = [] ∨ maxRequestBodyBytes < payload.length then s.inPhase w .idle
    else answered s w page limit payload answer now

def save (page : Page) (now : ℤ) (ack : Ack) : State :=
  let result := commit ack .database s.store
    (saveRemoteWriteCursor s.store w.fingerprint page.batch.next now)
  { s with store := result.2 }.inPhase w .idle

/-- The event of a new record; a repeated one stores nothing. -/
def rejectedEvents (store store' : Store) (p : Pending) : List Event :=
  if store' = store then [] else [.rejected p.page p.record]

def persistRejectedPage (p : Pending) (ack : Ack) : State :=
  let result := commit ack .database s.store (rejectRemoteWritePage s.store w.fingerprint p.record)
  { s with
    store := result.2
    history := s.history ++ rejectedEvents s.store result.2 p
    worker := some { w with pending := if result.1.isOk then none else some p } }

/-- One step of the running worker. A pending rejection comes before everything else. -/
def workerStep : WorkerOp → State
  | .load ack =>
    match w.pending, w.phase with
    | none, .idle => load s w ack
    | _, _ => s
  | .query =>
    match w.phase with
    | .querying r limit stage => query s w r limit stage
    | _ => s
  | .queryFails =>
    match w.phase with
    | .querying .. => s.inPhase w .idle
    | _ => s
  | .push serialized answer now =>
    match w.phase with
    | .paged page limit => push s w page limit serialized answer now
    | _ => s
  | .save now ack =>
    match w.phase with
    | .accepted page => save s w page now ack
    | _ => s
  | .persist ack =>
    match w.pending with
    | some p => persistRejectedPage s w p ack
    | none => s
  | .start _ => s
  | .stop => { s with worker := none }

inductive Op
  | tables (op : TableOp)
  | worker (op : WorkerOp)

def step : Op → State
  | .tables op => { s with tables := tableStep s.tables op }
  | .worker op =>
    match s.worker with
    | some w => workerStep s w op
    | none =>
      match op with
      | .start fingerprint => { s with worker := some ⟨fingerprint, none, .idle⟩ }
      | _ => s

def init : State :=
  { tables := ⟨[], [], 0, 0, [], ⟨0, 0⟩⟩, store := ⟨none, []⟩, worker := none, history := [] }

end LabTether.RemoteWrite
