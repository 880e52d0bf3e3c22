import LabTether.RemoteWriteExport
import LabTether.Smallest

/-!
What holds in every state of the export, as long as no transaction commits a row behind a
position that the worker has read past.
The page in flight holds every visible row between the durable cursor and its end, so the
cursor can move there; and every visible row at or below the cursor is in a page that was
disposed of. The order of the history follows from the cursor: a page starts at it, and it
has passed every page that was rejected.
-/
namespace LabTether.RemoteWrite

open Paging Smallest List

def Phase.reading : Phase → Option Reading
  | .idle => none
  | .querying r _ _ => some r
  | .paged p _ => some p.toReading
  | .accepted p => some p.toReading

def Phase.page : Phase → Option Page
  | .paged p _ => some p
  | .accepted p => some p
  | _ => none

/-- The durable cursor; without a row the worker would start at zero. -/
def Store.cursor (store : Store) : Cursor := (store.state.map CursorRow.cursor).getD ⟨0, 0⟩

def Worker.inFlight (w : Worker) : Option Reading :=
  match w.pending with
  | some p => some p.page.toReading
  | none => w.phase.reading

structure Reading.Covers (r : Reading) (t : Tables) : Prop where
  assets : Paging.Covers AssetSampleRow.id r.previous.assetSampleID r.assets t.assetRows
  hubs : Paging.Covers HubSampleRow.id r.previous.hubSampleID r.hubs t.hubRows

/-- A page reaches as far as its rows, which lie beyond its start. -/
structure Page.Sound (p : Page) : Prop where
  next : p.batch.next = p.next
  assets : Ascends AssetSampleRow.id p.previous.assetSampleID p.assets
  hubs : Ascends HubSampleRow.id p.previous.hubSampleID p.hubs

/-- The receiver accepted the page, or it was stored as rejected, or there was nothing in
it to send. -/
def Disposed (history : List Event) (p : Page) : Prop :=
  .sent p .success ∈ history ∨ (∃ record, .rejected p record ∈ history) ∨
    (.read p ∈ history ∧ p.batch.samples = [])

/-- Every visible row up to the cursor is in a page with the property. -/
structure Accounted (Q : Page → Prop) (cursor : Cursor) (t : Tables) : Prop where
  assets : ∀ row ∈ t.assetRows, row.id ≤ cursor.assetSampleID →
    ∃ p, Q p ∧ row.id ∈ p.assets.map AssetSampleRow.id
  hubs : ∀ row ∈ t.hubRows, row.id ≤ cursor.hubSampleID →
    ∃ p, Q p ∧ row.id ∈ p.hubs.map HubSampleRow.id

/-- What was sent or rejected after a rejected page starts where that page ended, or
later. -/
def Event.Follows : Event → Event → Prop
  | .rejected p _, .sent q _ => q.previous.notBehind p.batch.next
  | .rejected p _, .rejected q _ => q.previous.notBehind p.batch.next
  | _, _ => True

def Tx.Positive (tx : Tx) : Prop := (∀ row ∈ tx.assets, 0 < row.id) ∧ ∀ row ∈ tx.hubs, 0 < row.id

structure TablesInv (t : Tables) : Prop where
  assets : ∀ row ∈ t.assetRows, 0 < row.id ∧ row.id ≤ t.high.assetSampleID
  hubs : ∀ row ∈ t.hubRows, 0 < row.id ∧ row.id ≤ t.high.hubSampleID
  txs : ∀ tx ∈ t.txs, tx.Positive

/-- The rows read from the durable cursor are all there are up to their end. -/
structure ReadingInv (t : Tables) (store : Store) (fingerprint : String) (r : Reading) : Prop where
  state : store.state = some ⟨fingerprint, r.previous⟩
  covers : r.Covers t
  within : t.high.notBehind r.next

structure PendingInv (t : Tables) (store : Store) (history : List Event) (w : Worker)
    (p : Pending) : Prop where
  idle : w.phase = .idle
  read : .read p.page ∈ history
  advances : p.page.batch.next.advances p.page.previous
  previous : p.record.previous = p.page.previous
  next : p.record.next = p.page.batch.next
  /-- not recorded yet, or recorded and recognised -/
  status : ReadingInv t store w.fingerprint p.page.toReading ∨
    (rejectRemoteWritePage store w.fingerprint p.record = .ok ((), store) ∧
      .rejected p.page p.record ∈ history)
  within : t.high.notBehind p.page.next

structure WorkerInv (t : Tables) (store : Store) (history : List Event) (w : Worker) : Prop where
  reading : ∀ r, w.phase.reading = some r → ReadingInv t store w.fingerprint r
  page : ∀ p, w.phase.page = some p → .read p ∈ history
  paged : ∀ p limit, w.phase = .paged p limit → p.batch.next.advances p.previous
  accepted : ∀ p, w.phase = .accepted p → Disposed history p
  pending : ∀ p, w.pending = some p → PendingInv t store history w p

/-- The page is behind the cursor, and its endpoint's record is stored. -/
structure Recorded (store : Store) (p : Page) (record : RejectedPage) : Prop where
  past : store.cursor.notBehind p.batch.next
  previous : record.previous = p.previous
  next : record.next = p.batch.next
  stored : ∃ row, store.state = some row ∧ ⟨row.endpointFingerprint, record⟩ ∈ store.rejections

structure Inv (s : State) : Prop where
  tables : TablesInv s.tables
  within : s.tables.high.notBehind s.store.cursor
  worker : ∀ w, s.worker = some w → WorkerInv s.tables s.store s.history w
  accounted : Accounted (Disposed s.history) s.store.cursor s.tables
  pages : ∀ p, .read p ∈ s.history → p.Sound
  sent : ∀ p answer, .sent p answer ∈ s.history → .read p ∈ s.history
  rejected : ∀ p record, .rejected p record ∈ s.history →
    .read p ∈ s.history ∧ Recorded s.store p record
  ordered : s.history.Pairwise Event.Follows

def Tx.Beyond (tx : Tx) (c : Cursor) : Prop :=
  (∀ row ∈ tx.assets, c.assetSampleID < row.id) ∧ ∀ row ∈ tx.hubs, c.hubSampleID < row.id
  deriving Decidable

/-- The positions that rows may not appear behind: the durable cursor, and the end of what
the worker has read from it. -/
def State.marks (s : State) : List Cursor :=
  s.store.cursor :: ((s.worker.bind Worker.inFlight).map Reading.next).toList

/-- The condition holds for every transaction that the operation commits. -/
def OnCommit (P : Tables → Tx → Prop) (t : Tables) : Op → Prop
  | .tables (.commit id) => ∀ tx ∈ t.tx id, P t tx
  | _ => True

instance (P : Tables → Tx → Prop) [∀ t tx, Decidable (P t tx)] (t : Tables) :
    DecidablePred (OnCommit P t)
  | .tables (.commit id) => inferInstanceAs (Decidable (∀ tx ∈ t.tx id, P t tx))
  | .tables (.begin _) | .tables (.insertAsset _ _) | .tables (.insertHub _ _)
  | .tables (.rollback _) | .tables (.delete _ _) | .worker _ => .isTrue trivial

/-- No row appears behind a position the worker has read past. -/
def Unsealed (s : State) (op : Op) : Prop :=
  OnCommit (fun _ tx => ∀ c ∈ s.marks, tx.Beyond c) s.tables op
  deriving Decidable

/-- Rows become visible in the order of their ids. -/
def InOrder (s : State) (op : Op) : Prop := OnCommit (fun t tx => tx.Beyond t.high) s.tables op
  deriving Decidable

section

variable {Q Q' : Page → Prop} {cursor : Cursor} {t t' : Tables} {p : Page}

theorem Cursor.notBehind_refl (c : Cursor) : c.notBehind c := ⟨le_refl _, le_refl _⟩

theorem Cursor.notBehind_trans {a b c : Cursor} (h : a.notBehind b) (h' : b.notBehind c) :
    a.notBehind c :=
  ⟨le_trans h'.1 h.1, le_trans h'.2 h.2⟩

theorem Cursor.not_notBehind_of_advances {a b : Cursor} (h : a.advances b) : ¬ b.notBehind a := by
  rintro ⟨hasset, hhub⟩
  unfold Cursor.advances at h
  omega

theorem Page.Sound.notBehind (h : p.Sound) : p.next.notBehind p.previous :=
  ⟨le_lastKey h.assets, le_lastKey h.hubs⟩

theorem Accounted.mono (h : Accounted Q cursor t) (hQ : ∀ p, Q p → Q' p) :
    Accounted Q' cursor t := by
  constructor
  · intro row hrow hle
    obtain ⟨p, hp, hmem⟩ := h.assets row hrow hle
    exact ⟨p, hQ p hp, hmem⟩
  · intro row hrow hle
    obtain ⟨p, hp, hmem⟩ := h.hubs row hrow hle
    exact ⟨p, hQ p hp, hmem⟩

theorem Accounted.subset (h : Accounted Q cursor t) (hassets : t'.assetRows ⊆ t.assetRows)
    (hhubs : t'.hubRows ⊆ t.hubRows) : Accounted Q cursor t' :=
  ⟨fun row hrow => h.assets row (hassets hrow), fun row hrow => h.hubs row (hhubs hrow)⟩

theorem Accounted.commitTx (h : Accounted Q cursor t) {tx : Tx} (hnew : tx.Beyond cursor) :
    Accounted Q cursor (t.commitTx tx) := by
  refine ⟨fun row hrow hle => ?_, fun row hrow hle => ?_⟩
  all_goals rcases mem_append.1 hrow with hrow | hrow
  · exact h.assets row hrow hle
  · have hbeyond := hnew.1 row hrow
    omega
  · exact h.hubs row hrow hle
  · have hbeyond := hnew.2 row hrow
    omega

theorem Accounted.advance (h : Accounted Q p.previous t) (hcovers : p.Covers t) (hp : Q p) :
    Accounted Q p.next t := by
  constructor
  · intro row hrow hle
    by_cases hold : row.id ≤ p.previous.assetSampleID
    · exact h.assets row hrow hold
    · exact ⟨p, hp, hcovers.assets row hrow (by omega) hle⟩
  · intro row hrow hle
    by_cases hold : row.id ≤ p.previous.hubSampleID
    · exact h.hubs row hrow hold
    · exact ⟨p, hp, hcovers.hubs row hrow (by omega) hle⟩

theorem Accounted.zero (h : TablesInv t) : Accounted Q ⟨0, 0⟩ t := by
  constructor
  · intro row hrow hle
    have hpos := (h.assets row hrow).1
    simp only at hle
    omega
  · intro row hrow hle
    have hpos := (h.hubs row hrow).1
    simp only at hle
    omega

theorem Reading.Covers.subset {r : Reading} (h : r.Covers t) (hassets : t'.assetRows ⊆ t.assetRows)
    (hhubs : t'.hubRows ⊆ t.hubRows) : r.Covers t' :=
  ⟨h.assets.subset hassets, h.hubs.subset hhubs⟩

theorem Reading.Covers.commitTx {r : Reading} (h : r.Covers t) {tx : Tx}
    (hnew : tx.Beyond r.next) : r.Covers (t.commitTx tx) :=
  ⟨h.assets.insert hnew.1, h.hubs.insert hnew.2⟩

theorem Disposed.mono {history history' : List Event} (h : Disposed history p)
    (hsub : history ⊆ history') : Disposed history' p := by
  rcases h with hsent | ⟨record, hrej⟩ | ⟨hread, hempty⟩
  · exact .inl (hsub hsent)
  · exact .inr (.inl ⟨record, hsub hrej⟩)
  · exact .inr (.inr ⟨hsub hread, hempty⟩)

end

section

variable {t : Tables} {tx : Tx}

theorem tx_mem {id : ℕ} (h : t.tx id = some tx) : tx ∈ t.txs := mem_of_find?_eq_some h

theorem commitTx_high : (t.commitTx tx).high.notBehind t.high :=
  ⟨(le_foldl_max _ _).1, (le_foldl_max _ _).1⟩

structure Hidden (t t' : Tables) : Prop where
  assets : t'.assetRows ⊆ t.assetRows
  hubs : t'.hubRows ⊆ t.hubRows
  high : t'.high = t.high

open Hidden

theorem Hidden.of_eq {t' : Tables} (hassets : t'.assetRows = t.assetRows)
    (hhubs : t'.hubRows = t.hubRows) (hhigh : t'.high = t.high) : Hidden t t' :=
  ⟨by rw [hassets]; exact List.Subset.refl _, by rw [hhubs]; exact List.Subset.refl _, hhigh⟩

theorem tableStep_rows (t : Tables) (op : TableOp) :
    (∃ id tx, op = .commit id ∧ t.tx id = some tx ∧ tableStep t op = t.commitTx tx) ∨
      Hidden t (tableStep t op) := by
  fun_cases tableStep t op
  case case9 id tx htx => exact .inl ⟨id, tx, rfl, htx, rfl⟩
  case case11 => exact .inr ⟨filter_subset_self _, filter_subset_self _, rfl⟩
  all_goals exact .inr (of_eq rfl rfl rfl)

theorem putTx_positive {new : Tx} (h : ∀ tx ∈ t.txs, tx.Positive) (hnew : new.Positive) :
    ∀ tx ∈ (t.putTx new).txs, tx.Positive := by
  intro tx htx
  obtain ⟨old, hold, rfl⟩ := mem_map.1 htx
  split
  · exact hnew
  · exact h old hold

theorem tableStep_positive (h : ∀ tx ∈ t.txs, tx.Positive) (op : TableOp) :
    ∀ tx ∈ (tableStep t op).txs, tx.Positive := by
  have hdrop : ∀ id, ∀ tx ∈ (t.dropTx id).txs, tx.Positive :=
    fun id tx htx => h tx (mem_of_mem_filter htx)
  fun_cases tableStep t op
  case case2 => exact forall_mem_append.2 ⟨h, forall_mem_singleton.2 ⟨nofun, nofun⟩⟩
  case case4 htx _ =>
    have hold := h _ (tx_mem htx)
    exact putTx_positive h ⟨forall_mem_append.2
      ⟨hold.1, forall_mem_singleton.2 (Nat.succ_pos _)⟩, hold.2⟩
  case case7 htx _ _ =>
    have hold := h _ (tx_mem htx)
    exact putTx_positive h ⟨hold.1, forall_mem_append.2
      ⟨hold.2, forall_mem_singleton.2 (Nat.succ_pos _)⟩⟩
  all_goals first | exact h | exact hdrop _

theorem tableStep_inv (h : TablesInv t) (op : TableOp) : TablesInv (tableStep t op) := by
  have hpositive := tableStep_positive h.txs op
  rcases tableStep_rows t op with ⟨id, tx, -, htx, hstep⟩ | hhidden
  · have htx := h.txs tx (tx_mem htx)
    rw [hstep] at hpositive ⊢
    refine ⟨fun row hrow => ?_, fun row hrow => ?_, hpositive⟩
    all_goals rcases mem_append.1 hrow with hrow | hrow
    · exact ⟨(h.assets row hrow).1, le_trans (h.assets row hrow).2 commitTx_high.1⟩
    · exact ⟨htx.1 row hrow, (le_foldl_max _ _).2 _ (mem_map_of_mem hrow)⟩
    · exact ⟨(h.hubs row hrow).1, le_trans (h.hubs row hrow).2 commitTx_high.2⟩
    · exact ⟨htx.2 row hrow, (le_foldl_max _ _).2 _ (mem_map_of_mem hrow)⟩
  · refine ⟨fun row hrow => ?_, fun row hrow => ?_, hpositive⟩
    all_goals rw [hhidden.high]
    · exact h.assets row (hhidden.assets hrow)
    · exact h.hubs row (hhidden.hubs hrow)

end
end LabTether.RemoteWrite
