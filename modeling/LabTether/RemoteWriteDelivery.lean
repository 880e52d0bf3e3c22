import LabTether.RemoteWriteProgress

/-!
What becomes of every row: none at or below the durable cursor is missed, the cursor only
moves forward for its endpoint, and a page that was stored as rejected is behind everything
that is sent or rejected after it. All of it holds as long as rows do not become visible
behind the worker. An id is drawn before its row is visible, and nothing makes a transaction
wait for the ones that drew smaller ids, so this is a condition on the order of commits.
-/
namespace LabTether.RemoteWrite

open Paging Transaction Transition List Cursor

section

variable {s : State} {w : Worker} {op : Op} {fingerprint : String}

inductive StoreMove (store : Store) : Store → Prop
  | keep : StoreMove store store
  | load (fingerprint c store') (h : loadRemoteWriteCursor store fingerprint = .ok (c, store')) :
      StoreMove store store'
  | save (fingerprint c now store')
      (h : saveRemoteWriteCursor store fingerprint c now = .ok ((), store')) : StoreMove store store'
  | reject (fingerprint page store')
      (h : rejectRemoteWritePage store fingerprint page = .ok ((), store')) : StoreMove store store'

theorem load_store (ack : Ack) : StoreMove s.store (load s w ack).store := by
  have hmove : StoreMove s.store (commit ack .database s.store
      (loadRemoteWriteCursor s.store w.fingerprint)).2 :=
    commit_state (StoreMove s.store) .keep fun c store h => .load _ c store h
  unfold load
  simp only
  split <;> exact hmove

theorem query_store {r : Reading} {limit : ℕ} {stage : Stage} :
    (query s w r limit stage).store = s.store := by
  cases stage with
  | assets | hubs => rfl
  | extra =>
    simp only [query, pageRead]
    split <;> rfl

theorem push_store {p : Page} {limit : ℕ} {serialized : Serialized} {answer : Answer} {now : ℤ} :
    (push s w p limit serialized answer now).store = s.store := by
  fun_cases push s w p limit serialized answer now
  case case4 => fun_cases answered <;> rfl
  all_goals rfl

theorem step_store (s : State) (op : Op) : StoreMove s.store (step s op).store := by
  rcases op with op | op
  · exact .keep
  simp only [step]
  split
  next w hw =>
    fun_cases workerStep s w op <;> try exact .keep
    · exact load_store _
    · rw [query_store]
      exact .keep
    · rw [push_store]
      exact .keep
    · exact commit_state (StoreMove s.store) .keep fun _ store h => .save _ _ _ store h
    · exact commit_state (StoreMove s.store) .keep fun _ store h => .reject _ _ store h
  · split <;> exact .keep

theorem step_forward (hbefore : s.owner = some fingerprint)
    (hafter : (step s op).owner = some fingerprint) :
    (step s op).store.cursor.notBehind s.store.cursor := by
  obtain ⟨row, hrow, hfp⟩ := Option.map_eq_some_iff.1 hbefore
  have hcursor : s.store.cursor = row.cursor := by
    rw [Store.cursor, hrow]
    rfl
  have hmove := step_store s op
  unfold State.owner at hafter
  generalize (step s op).store = store' at hmove hafter
  rw [hcursor]
  cases hmove with
  | keep =>
    rw [hcursor]
    exact notBehind_refl _
  | load fp c _ h =>
    obtain ⟨hc, rfl⟩ := loadRemoteWriteCursor_ok h
    have hsame : row.endpointFingerprint = fp := hfp.trans (Option.some.inj hafter).symm
    have hrowc : c = row.cursor := by simp only [hc, cursorFor, hrow, hsame, if_true]
    rw [hrowc]
    exact notBehind_refl _
  | save fp c now _ h =>
    obtain ⟨row', hrow', hnot, rfl⟩ := saveRemoteWriteCursor_ok h
    cases hrow.symm.trans hrow'
    exact hnot
  | reject fp page _ h =>
    obtain ⟨row', hrow', -, hvalid, ⟨-, -, rfl⟩ | ⟨hprev, rfl⟩⟩ := rejectRemoteWritePage_ok h
    · rw [hcursor]
      exact notBehind_refl _
    · cases hrow.symm.trans hrow'
      rw [hprev]
      exact hvalid.1

/-- While an endpoint keeps the cursor row, its cursor never moves back. -/
theorem run_forward {ops : List Op}
    (h : AllStates step (fun s => s.owner = some fingerprint) s ops) :
    (run step s ops).store.cursor.notBehind s.store.cursor := by
  induction ops generalizing s with
  | nil => exact notBehind_refl _
  | cons op ops ih =>
    have hnext : (step s op).owner = some fingerprint := by
      cases ops with
      | nil => exact h.2
      | cons op' ops => exact h.2.1
    exact notBehind_trans (ih h.2) (step_forward h.1 hnext)

/-- The page begins where the other ended, or later, and shares no row with it. -/
structure Page.After (q p : Page) : Prop where
  start : q.previous.notBehind p.batch.next
  assets : ∀ row ∈ q.assets, row.id ∉ p.assets.map AssetSampleRow.id
  hubs : ∀ row ∈ q.hubs, row.id ∉ p.hubs.map HubSampleRow.id

theorem Page.Sound.after {p q : Page} (hp : p.Sound) (hq : q.Sound)
    (hstart : q.previous.notBehind p.batch.next) : q.After p := by
  have hnext := hstart
  rw [hp.next] at hnext
  refine ⟨hstart, fun row hrow hmem => ?_, fun row hrow hmem => ?_⟩
  all_goals obtain ⟨old, hold, hid⟩ := mem_map.1 hmem
  · have hle : old.id ≤ p.next.assetSampleID := le_lastKey_of_mem hp.assets hold
    have hlt := (pairwise_cons.1 hq.assets).1 row.id (mem_map_of_mem hrow)
    have hbetween := hnext.1
    omega
  · have hle : old.id ≤ p.next.hubSampleID := le_lastKey_of_mem hp.hubs hold
    have hlt := (pairwise_cons.1 hq.hubs).1 row.id (mem_map_of_mem hrow)
    have hbetween := hnext.2
    omega

/-- Nothing of a rejected page is sent or rejected again. -/
def NotAgain (e e' : Event) : Prop :=
  ∀ p record q, e = .rejected p record →
    ((∃ answer, e' = .sent q answer) ∨ ∃ record', e' = .rejected q record') → q.After p

theorem Inv.notAgain (h : Inv s) : s.history.Pairwise NotAgain := by
  apply h.ordered.imp_of_mem
  intro e e' he he' hfollows p record q heq hagain
  subst heq
  have hp : p.Sound := h.pages p (h.rejected p record he).1
  rcases hagain with ⟨answer, rfl⟩ | ⟨record', rfl⟩
  · exact hp.after (h.pages q (h.sent q answer he')) hfollows
  · exact hp.after (h.pages q (h.rejected q record' he').1) hfollows

/-- A rejection that was recorded is recognised: repeating the call stores nothing, and
ends the retry once its answer arrives. -/
theorem Inv.reconciled (h : Inv s) {w : Worker} {p : Pending} (hw : s.worker = some w)
    (hp : w.pending = some p) (hrec : .rejected p.page p.record ∈ s.history) (ack : Ack) :
    step s (.worker (.persist ack)) =
      { s with worker := some { w with pending := if ack = .delivered then none else some p } } := by
  have hpi := (h.worker w hw).pending p hp
  have hstored : rejectRemoteWritePage s.store w.fingerprint p.record = .ok ((), s.store) := by
    rcases hpi.status with hwaiting | ⟨hstored, -⟩
    · have hpast := (h.rejected p.page p.record hrec).2.past
      rw [hwaiting.cursor] at hpast
      exact absurd hpast (not_notBehind_of_advances hpi.advances)
    · exact hstored
  have hstep : step s (.worker (.persist ack)) = persistRejectedPage s w p ack := by
    simp [step, hw, workerStep, hp]
  rw [hstep, persistRejectedPage, hstored]
  cases ack <;> simp [commit, rejectedEvents, Except.isOk, Except.toBool]

/-- What the export owes for the endpoint that holds the cursor row. -/
structure Delivery (s : State) : Prop where
  disposed : Accounted (Disposed s.history) s.store.cursor s.tables
  recorded : ∀ p record, .rejected p record ∈ s.history → Recorded s.store p record
  forward : ∀ fingerprint later, AllStates step (fun s' => s'.owner = some fingerprint) s later →
    (run step s later).store.cursor.notBehind s.store.cursor
  notAgain : s.history.Pairwise NotAgain
  reconciled : ∀ w p ack, s.worker = some w → w.pending = some p →
    .rejected p.page p.record ∈ s.history → step s (.worker (.persist ack)) =
      { s with worker := some { w with pending := if ack = .delivered then none else some p } }

/-- In every run whose rows become visible in id order, in every state of it, each row up
to the cursor was in a page that was accepted, stored as rejected or had nothing to send. -/
theorem delivery_disposition (ops : List Op) (hops : StepsMeet step InOrder init ops) :
    AllStates step Delivery init ops := by
  have hinv : AllStates step Inv init ops :=
    allStates_of_stepsMeet (P := Inv) (fun _ _ h hop => step_inv h (h.unsealed hop)) init_inv hops
  rw [allStates_iff_runs] at hinv ⊢
  intro pre hpre
  have h := hinv pre hpre
  exact ⟨h.accounted, fun p record hp => (h.rejected p record hp).2, fun _ _ => run_forward,
    h.notAgain, fun _ _ ack hw hp hrec => h.reconciled hw hp hrec ack⟩

def cpuRow : AssetSampleRow :=
  { id := 0, assetID := "a", assetName := "a", assetType := "vm", platform := "", dockerHost := "",
    dockerImage := "", dockerStack := "", metric := "cpu", unit := "percent", value := 0,
    collectedAt := 0, labels := [] }

def endpointA : String := String.ofList (List.replicate 64 'a')
def endpointB : String := String.ofList (List.replicate 64 'b')

def ingest (tx : ℕ) (row : AssetSampleRow) : List Op :=
  [.tables (.begin tx), .tables (.insertAsset tx row), .tables (.commit tx)]

def readPage : List Op :=
  [.worker (.load .delivered), .worker .query, .worker .query, .worker .query]

/-- A page is saved; the next is rejected and its commit is not answered; a new row comes. -/
def lostCommitRun : List Op :=
  ingest 0 cpuRow ++ [.worker (.start endpointA)] ++ readPage ++
    [.worker (.push (.body [1]) .success 1), .worker (.save 1 .delivered)] ++
    ingest 1 cpuRow ++ readPage ++
    [.worker (.push (.body [1]) (.status 400) 2), .worker (.persist .lost)] ++
    ingest 2 cpuRow ++ [.worker (.persist .delivered)]

theorem delivery_disposition_lost_commit : StepsMeet step InOrder init lostCommitRun ∧
      (run step init lostCommitRun).store.cursor = ⟨2, 0⟩ ∧
      (run step init lostCommitRun).store.rejections.length = 1 ∧
      AllStates step Delivery init lostCommitRun := by
  have hops : StepsMeet step InOrder init lostCommitRun := by decide +kernel
  have hend : (run step init lostCommitRun).store.cursor = ⟨2, 0⟩ ∧
      (run step init lostCommitRun).store.rejections.length = 1 := by decide +kernel
  exact ⟨hops, hend.1, hend.2, delivery_disposition lostCommitRun hops⟩

def reservedRun : List Op :=
  ingest 0 { cpuRow with metric := "asset_info" } ++ [.worker (.start endpointA)] ++ readPage ++
    [.worker (.save 1 .delivered)]

def rejectedRun : List Op :=
  ingest 0 cpuRow ++ [.worker (.start endpointA)] ++ readPage ++
    [.worker (.push (.body [1]) (.status 400) 1), .worker (.persist .delivered)]

/-- Another endpoint takes the cursor row, and the first one comes back. -/
def switchRun : List Op :=
  [.worker .stop, .worker (.start endpointB), .worker (.load .delivered), .worker .stop,
    .worker (.start endpointA)] ++ readPage ++ [.worker (.push (.body [1]) .success 2)]

def Event.isRead : Event → Bool
  | .read _ => true
  | _ => false

def Event.rejectedPage : Event → Option Page
  | .rejected p _ => some p
  | _ => none

def Event.sentPage : Event → Option Page
  | .sent p _ => some p
  | _ => none

/-- A page of reserved metrics moves the cursor and is never sent; and an endpoint that
comes back starts over, and is sent the page it had rejected. -/
theorem cursor_without_send_and_replay : (StepsMeet step InOrder init reservedRun ∧
      (∃ row ∈ (run step init reservedRun).tables.assetRows,
        row.id ≤ (run step init reservedRun).store.cursor.assetSampleID) ∧
      ∀ e ∈ (run step init reservedRun).history, e.isRead) ∧
    (StepsMeet step InOrder init (rejectedRun ++ switchRun) ∧
      (run step init rejectedRun).owner = some endpointA ∧
      (run step init (rejectedRun ++ switchRun)).owner = some endpointA ∧
      ¬ (run step init (rejectedRun ++ switchRun)).store.cursor.notBehind
        (run step init rejectedRun).store.cursor ∧
      ∃ p ∈ (run step init rejectedRun).history.filterMap Event.rejectedPage,
        p ∈ (run step init (rejectedRun ++ switchRun)).history.filterMap Event.sentPage) := by
  decide +kernel

end

/-- Every visible row is above the cursor, or was in a page that was read. -/
def ReadOrAbove (s : State) : Prop :=
  Accounted (fun p => .read p ∈ s.history) s.store.cursor s.tables

theorem Inv.readOrAbove {s : State} (h : Inv s) : ReadOrAbove s := by
  apply h.accounted.mono
  rintro p (hsent | ⟨record, hrej⟩ | ⟨hread, -⟩)
  · exact h.sent p .success hsent
  · exact (h.rejected p record hrej).1
  · exact hread

/-- No row is passed over in a run whose transactions never commit a row at or below the
durable cursor, or at or below the end of what the worker has read from it. -/
theorem no_sample_skipped (ops : List Op) (hops : StepsMeet step Unsealed init ops) :
    AllStates step ReadOrAbove init ops := by
  have hinv : AllStates step Inv init ops :=
    allStates_of_stepsMeet (P := Inv) (fun _ _ h hop => step_inv h hop) init_inv hops
  rw [allStates_iff_runs] at hinv ⊢
  intro pre hpre
  exact (hinv pre hpre).readOrAbove

/-- The transaction that drew the larger id commits first. -/
def crossedTxs : List Op :=
  [.tables (.begin 1), .tables (.begin 2), .tables (.insertAsset 1 cpuRow),
    .tables (.insertAsset 2 cpuRow), .tables (.commit 2)]

def exportPage : List Op :=
  [.worker (.start endpointA)] ++ readPage ++
    [.worker (.push (.body [1]) .success 1), .worker (.save 1 .delivered)]

/-- Crossed commits do no harm while no page is read in between. -/
theorem no_sample_skipped_crossed :
    StepsMeet step Unsealed init (crossedTxs ++ [.tables (.commit 1)] ++ exportPage) ∧
      AllStates step ReadOrAbove init (crossedTxs ++ [.tables (.commit 1)] ++ exportPage) := by
  have hops : StepsMeet step Unsealed init (crossedTxs ++ [.tables (.commit 1)] ++ exportPage) := by
    decide +kernel
  exact ⟨hops, no_sample_skipped _ hops⟩

def Event.readPage : Event → Option Page
  | .read p => some p
  | _ => none

/-- A page is read and saved between the two commits; the first transaction's row appears
behind the cursor and is in no page. -/
theorem late_commit_skipped :
    ¬ ReadOrAbove (run step init (crossedTxs ++ exportPage ++ [.tables (.commit 1)])) := by
  intro h
  have hrun : ∀ s, s = run step init (crossedTxs ++ exportPage ++ [.tables (.commit 1)]) →
      ({ cpuRow with id := 1 } ∈ s.tables.assetRows ∧ 1 ≤ s.store.cursor.assetSampleID) ∧
        ∀ e ∈ s.history, ∀ p ∈ e.readPage, 1 ∉ p.assets.map AssetSampleRow.id := by
    rintro s rfl
    decide +kernel
  obtain ⟨⟨hrow, hle⟩, hread⟩ := hrun _ rfl
  obtain ⟨p, hp, hmem⟩ := h.assets _ hrow hle
  exact hread _ hp p rfl hmem

end LabTether.RemoteWrite
