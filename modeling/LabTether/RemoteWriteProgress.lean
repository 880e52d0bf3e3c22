import LabTether.RemoteWriteInvariant

/-!
Every step of the export keeps its invariant: the steps of the worker one function at a
time, then a step of the tables beside it.
-/
namespace LabTether.RemoteWrite

open Paging Transaction List WorkerInv Option Cursor Event ReadingInv Worker Covers

variable {fingerprint : String}

section

variable {s : State} {w : Worker} {t : Tables} {store : Store} {history : List Event}

theorem WorkerInv.pending_none (h : WorkerInv t store history w) (hphase : w.phase ≠ .idle) :
    w.pending = none := by
  by_contra hsome
  obtain ⟨p, hp⟩ := ne_none_iff_exists'.1 hsome
  exact hphase (h.pending p hp).idle

variable {p : Page}

theorem WorkerInv.of_page (h : WorkerInv t store history w) (hpage : w.phase.page = some p) :
    w.pending = none ∧ ReadingInv t store w.fingerprint p.toReading ∧ .read p ∈ history := by
  have hreading : w.phase.reading = some p.toReading ∧ w.phase ≠ .idle := by
    cases hphase : w.phase <;> simp_all [Phase.page, Phase.reading]
  exact ⟨h.pending_none hreading.2, h.reading _ hreading.1, h.page p hpage⟩

variable (hp : w.pending = none)
include hp

theorem WorkerInv.idle :
    WorkerInv t store history { w with phase := .idle } where
  reading := nofun
  page := nofun
  paged := nofun
  accepted := nofun
  pending p h := by
    rw [hp] at h
    cases h

variable {r : Reading} {limit : ℕ}

theorem WorkerInv.querying {stage : Stage} (hr : ReadingInv t store w.fingerprint r) :
    WorkerInv t store history { w with phase := .querying r limit stage } where
  reading r' h := by
    cases h
    exact hr
  page := nofun
  paged := nofun
  accepted := nofun
  pending p h := by
    rw [hp] at h
    cases h

theorem WorkerInv.paged_page (hr : ReadingInv t store w.fingerprint p.toReading)
    (hread : .read p ∈ history)
    (hadv : p.batch.next.advances p.previous) :
    WorkerInv t store history { w with phase := .paged p limit } where
  reading r h := by
    cases h
    exact hr
  page q h := by
    cases h
    exact hread
  paged q n h := by
    cases h
    exact hadv
  accepted := nofun
  pending q h := by
    rw [hp] at h
    cases h

theorem WorkerInv.accepted_page (hr : ReadingInv t store w.fingerprint p.toReading)
    (hread : .read p ∈ history)
    (hdisp : Disposed history p) : WorkerInv t store history { w with phase := .accepted p } where
  reading r h := by
    cases h
    exact hr
  page q h := by
    cases h
    exact hread
  paged := nofun
  accepted q h := by
    cases h
    exact hdisp
  pending q h := by
    rw [hp] at h
    cases h

omit hp

variable {history' : List Event}

theorem PendingInv.mono {p : Pending} (h : PendingInv t store history w p)
    (hsub : history ⊆ history') : PendingInv t store history' w p := by
  refine { h with read := hsub h.read, status := ?_ }
  rcases h.status with hwaiting | ⟨hstored, hevent⟩
  · exact .inl hwaiting
  · exact .inr ⟨hstored, hsub hevent⟩

theorem WorkerInv.mono (h : WorkerInv t store history w) (hsub : history ⊆ history') :
    WorkerInv t store history' w := { h with
  page p hp := hsub (h.page p hp)
  accepted p hp := (h.accepted p hp).mono hsub
  pending p hp := (h.pending p hp).mono hsub }

theorem Inv.withWorker (h : Inv s) {worker : Option Worker}
    (hw : ∀ w, worker = some w → WorkerInv s.tables s.store s.history w) :
    Inv { s with worker := worker } :=
  { h with worker := hw }

theorem Inv.inPhase (h : Inv s) {phase : Phase}
    (hw : WorkerInv s.tables s.store s.history { w with phase := phase }) :
    Inv (s.inPhase w phase) := by
  apply h.withWorker
  intro v hv
  cases hv
  exact hw

theorem Inv.record {e : Event} (h : Inv s) (hread : ∀ p, e = .read p → p.Sound)
    (hsent : ∀ p answer, e = .sent p answer → .read p ∈ s.history ∧ s.store.cursor = p.previous)
    (hrej : ∀ p record, e ≠ .rejected p record) : Inv (s.record e) := by
  have hsub : s.history ⊆ s.history ++ [e] := subset_append_left _ _
  refine ⟨h.tables, h.within, ?_, ?_, ?_, ?_, ?_, ?_⟩
  · intro w hw
    exact (h.worker w hw).mono hsub
  · exact h.accounted.mono fun p hp => hp.mono hsub
  · intro p hp
    rcases mem_append.1 hp with hp | hp
    · exact h.pages p hp
    · exact hread p (mem_singleton.1 hp).symm
  · intro p answer hp
    rcases mem_append.1 hp with hp | hp
    · exact hsub (h.sent p answer hp)
    · exact hsub (hsent p answer (mem_singleton.1 hp).symm).1
  · intro p record hp
    rcases mem_append.1 hp with hp | hp
    · exact ⟨hsub (h.rejected p record hp).1, (h.rejected p record hp).2⟩
    · exact absurd (mem_singleton.1 hp).symm (hrej p record)
  refine pairwise_append.2 ⟨h.ordered, pairwise_singleton _ _, ?_⟩
  intro old hold new hnew
  rw [mem_singleton.1 hnew]
  -- only a page sent after a rejected one is constrained
  cases old with
  | read p | sent p answer => trivial
  | rejected p record =>
    cases e with
    | read q => trivial
    | sent q answer =>
      have hpast := (h.rejected p record hold).2.past
      rw [(hsent q answer rfl).2] at hpast
      exact hpast
    | rejected q record' => exact absurd rfl (hrej q record')

theorem ReadingInv.first (h : Inv s) {c : Cursor} (hstate : s.store.state = some ⟨fingerprint, c⟩) :
    ReadingInv s.tables s.store fingerprint ⟨c, [], []⟩ := by
  refine ⟨hstate, ⟨nil, nil⟩, ?_⟩
  have hwithin := h.within
  unfold Store.cursor at hwithin
  rw [hstate] at hwithin
  exact hwithin

theorem ReadingInv.cursor (h : ReadingInv t store fingerprint r) :
    store.cursor = r.previous := by
  unfold Store.cursor
  rw [h.state]
  rfl

end

section

variable {s : State} {w : Worker}

/-- The state once a load has taken effect in the store. -/
def State.loaded (s : State) (store : Store) : State :=
  { s with
    store := store
    history := if s.owner = store.state.map CursorRow.endpointFingerprint then s.history else [] }

open State

theorem State.loaded_same (s : State) : s.loaded s.store = s := by
  simp [loaded, owner]

variable {store : Store}

theorem loaded_inv (h : Inv s) (hw : s.worker = some w) (hp : w.pending = none)
    (hphase : w.phase = .idle) {c : Cursor}
    (hload : loadRemoteWriteCursor s.store w.fingerprint = .ok (c, store)) : Inv (s.loaded store) := by
  obtain ⟨hc, rfl⟩ := loadRemoteWriteCursor_ok hload
  by_cases hsame : s.owner = some w.fingerprint
  · have hstate : s.store.state = some ⟨w.fingerprint, c⟩ := by
      obtain ⟨row, hrow, hfp⟩ := map_eq_some_iff.1 hsame
      simp [hc, cursorFor, hrow, ← hfp]
    have hstore : { s.store with state := some ⟨w.fingerprint, c⟩ } = s.store := by rw [← hstate]
    rw [hstore, loaded_same]
    exact h
  have hzero : c = ⟨0, 0⟩ := by
    rw [hc, cursorFor]
    split
    next row hrow =>
      rw [if_neg]
      intro hfp
      apply hsame
      rw [owner, hrow, ← hfp]
      rfl
    · rfl
  have hhist : (s.loaded { s.store with state := some ⟨w.fingerprint, c⟩ }).history = [] :=
    if_neg hsame
  subst hzero
  refine ⟨h.tables, ⟨Nat.zero_le _, Nat.zero_le _⟩, ?_, Accounted.zero h.tables, ?_, ?_, ?_, ?_⟩
  · intro v hv
    have heq : v = { w with phase := .idle } := by
      rw [← hphase]
      exact some.inj (hv.symm.trans hw)
    rw [heq]
    exact idle hp
  all_goals rw [hhist]
  · simp
  · simp
  · simp
  · exact List.Pairwise.nil

theorem load_inv (h : Inv s) (hw : s.worker = some w) (hp : w.pending = none)
    (hphase : w.phase = .idle) (ack : Ack) : Inv (load s w ack) := by
  have hstate : Inv (s.loaded (commit ack .database s.store
      (loadRemoteWriteCursor s.store w.fingerprint)).2) := by
    apply commit_state fun store => Inv (s.loaded store)
    · rw [loaded_same]
      exact h
    · intro c store hload
      exact loaded_inv h hw hp hphase hload
  unfold load
  simp only
  split
  · exact hstate
  next c hc =>
    apply hstate.inPhase
    apply querying hp
    apply first hstate
    rw [(loadRemoteWriteCursor_ok (commit_eq_ok hc)).2]
    rfl

variable {r : Reading} {t : Tables}

theorem ReadingInv.readAssets (h : TablesInv t)
    (hr : ReadingInv t store w.fingerprint r) {l : List AssetSampleRow}
    (hl : Covers AssetSampleRow.id r.previous.assetSampleID l t.assetRows)
    (hle : lastKey AssetSampleRow.id r.previous.assetSampleID l ≤ t.high.assetSampleID) (n : ℕ) :
    ReadingInv t store w.fingerprint { r with
      assets := l ++ assetsAfter t (lastKey AssetSampleRow.id r.previous.assetSampleID l) n } := by
  refine ⟨hr.state, ⟨hl.append page_covers, hr.covers.hubs⟩, ?_, hr.within.2⟩
  show lastKey AssetSampleRow.id r.previous.assetSampleID (l ++ _) ≤ _
  rw [lastKey_append]
  exact lastKey_le hle fun row hrow => (h.assets row (mem_of_mem_page hrow)).2

theorem ReadingInv.readHubs (h : TablesInv t)
    (hr : ReadingInv t store w.fingerprint r) {l : List HubSampleRow}
    (hl : Covers HubSampleRow.id r.previous.hubSampleID l t.hubRows)
    (hle : lastKey HubSampleRow.id r.previous.hubSampleID l ≤ t.high.hubSampleID) (n : ℕ) :
    ReadingInv t store w.fingerprint { r with
      hubs := l ++ hubsAfter t (lastKey HubSampleRow.id r.previous.hubSampleID l) n } := by
  refine ⟨hr.state, ⟨hr.covers.assets, hl.append page_covers⟩, hr.within.1, ?_⟩
  show lastKey HubSampleRow.id r.previous.hubSampleID (l ++ _) ≤ _
  rw [lastKey_append]
  exact lastKey_le hle fun row hrow => (h.hubs row (mem_of_mem_page hrow)).2

theorem ReadingInv.withExtra (h : TablesInv t)
    (hr : ReadingInv t store w.fingerprint r) (limit : ℕ) : ReadingInv t store w.fingerprint (withExtra t r limit) := by
  unfold RemoteWrite.withExtra
  split
  · exact hr
  next afterID n hq =>
    rw [extraQuery_after.1 hq]
    exact hr.readAssets h hr.covers.assets hr.within.1 n
  next afterID n hq =>
    rw [extraQuery_after.2 hq]
    exact hr.readHubs h hr.covers.hubs hr.within.2 n

variable {limit : ℕ}

theorem batchAfter_sound {batch : Batch}
    (h : batchAfter r.previous limit r.assets r.hubs = .ok batch) : (Page.mk r batch).Sound := by
  obtain ⟨built, hbuilt, hbatch⟩ := bind_eq_ok.1 h
  obtain ⟨hassets, hhubs, hnext⟩ := buildBatch_ok hbuilt
  cases hbatch
  exact ⟨hnext, hassets, hhubs⟩

variable {p : Page} {history : List Event}

theorem pageChecked_inv (hp : w.pending = none) (hr : ReadingInv t store w.fingerprint p.toReading)
    (hread : .read p ∈ history) :
    WorkerInv t store history { w with phase := pageChecked p limit } := by
  fun_cases pageChecked p limit
  case case3 hempty => exact accepted_page hp hr hread (.inr (.inr ⟨hread, hempty⟩))
  case case4 hvalid _ hsamples =>
    apply paged_page hp hr hread
    by_contra hadv
    exact hvalid (.inr (.inr ⟨hsamples, hadv⟩))
  all_goals exact idle hp

variable (h : Inv s)
include h

theorem pageRead_inv (hp : w.pending = none) (hr : ReadingInv s.tables s.store w.fingerprint r)
    (limit : ℕ) : Inv (pageRead s w r limit) := by
  unfold pageRead
  split
  · exact h.inPhase (idle hp)
  next batch hbatch =>
    have hrecord : Inv (s.record (.read ⟨r, batch⟩)) := by
      apply h.record
      · intro p heq
        rw [← read.inj heq]
        exact batchAfter_sound hbatch
      · intro p answer heq
        cases heq
      · intro p record heq
        cases heq
    exact hrecord.inPhase (pageChecked_inv hp hr (mem_append_right _ (.head _)))

variable (hw : s.worker = some w)
include hw

theorem query_inv {stage : Stage}
    (hphase : w.phase = .querying r limit stage) : Inv (query s w r limit stage) := by
  have hwi := h.worker w hw
  have hp : w.pending = none := hwi.pending_none (by rw [hphase]; exact nofun)
  have hr := hwi.reading r (by rw [hphase]; rfl)
  have hcursor := h.within
  rw [hr.cursor] at hcursor
  cases stage with
  | assets =>
    apply h.inPhase
    apply querying hp
    exact hr.readAssets h.tables nil hcursor.1 (assetLimit limit)
  | hubs =>
    apply h.inPhase
    apply querying hp
    exact hr.readHubs h.tables nil hcursor.2 (hubLimit limit)
  | extra => exact pageRead_inv h hp (hr.withExtra h.tables limit) limit

theorem answered_inv (hphase : w.phase = .paged p limit)
    (payload : List UInt8) (answer : Answer) (now : ℤ) :
    Inv (answered s w p limit payload answer now) := by
  have hwi := h.worker w hw
  obtain ⟨hp, hr, hread⟩ := hwi.of_page (p := p) (by rw [hphase]; rfl)
  have hs : Inv (s.record (.sent p answer)) := by
    apply h.record
    · intro q heq
      cases heq
    · intro q a heq
      rw [← (sent.inj heq).1]
      exact ⟨hread, hr.cursor⟩
    · intro q record heq
      cases heq
  have hread' : .read p ∈ (s.record (.sent p answer)).history := mem_append_left _ hread
  unfold answered
  cases answer with
  | success =>
    apply hs.inPhase
    apply accepted_page hp hr hread'
    exact .inl (mem_append_right _ (.head _))
  | failed => exact hs.inPhase (idle hp)
  | status code =>
    simp only
    split
    · exact hs.inPhase (querying hp (first hs hr.state))
    split
    · apply hs.withWorker
      intro v hv
      cases hv
      refine ⟨nofun, nofun, nofun, nofun, ?_⟩
      intro q hq
      cases hq
      exact ⟨rfl, hread', hwi.paged p limit hphase, rfl, rfl, .inl hr, hr.within⟩
    · exact hs.inPhase (idle hp)

theorem push_inv (hphase : w.phase = .paged p limit)
    (serialized : Serialized) (answer : Answer) (now : ℤ) :
    Inv (push s w p limit serialized answer now) := by
  obtain ⟨hp, hr, -⟩ := (h.worker w hw).of_page (p := p) (by rw [hphase]; rfl)
  fun_cases push s w p limit serialized answer now
  case case1 =>
    apply h.inPhase
    split
    · exact querying hp (first h hr.state)
    · exact idle hp
  case case4 => exact answered_inv h hw hphase _ answer now
  all_goals exact h.inPhase (idle hp)

omit hw in
/-- The cursor moves to the end of a page, which is disposed of and holds every row up to
there. -/
theorem Inv.advance {worker : Option Worker}
    (hr : ReadingInv s.tables s.store fingerprint p.toReading) (hread : .read p ∈ s.history)
    (hstate : store.state = some ⟨fingerprint, p.batch.next⟩)
    (hkept : s.store.rejections ⊆ store.rejections) (hsub : s.history ⊆ history)
    (hnew : ∀ e ∈ history, e ∈ s.history ∨
      ∃ record, e = .rejected p record ∧ Recorded store p record)
    (hdisp : Disposed history p) (hordered : history.Pairwise Follows)
    (hworker : ∀ w, worker = some w → WorkerInv s.tables store history w) :
    Inv { s with store := store, history := history, worker := worker } := by
  have hsound : p.Sound := h.pages p hread
  have hnext : store.cursor = p.next := by
    rw [← hsound.next, Store.cursor, hstate]
    rfl
  have hforward : store.cursor.notBehind s.store.cursor := by
    rw [hnext, hr.cursor]
    exact hsound.notBehind
  refine ⟨h.tables, ?_, hworker, ?_, ?_, ?_, ?_, hordered⟩
  · rw [hnext]
    exact hr.within
  · have hold := h.accounted.mono fun q hq => hq.mono hsub
    rw [hr.cursor] at hold
    rw [hnext]
    exact hold.advance hr.covers hdisp
  · intro q hq
    rcases hnew _ hq with hq | ⟨record, hq, -⟩
    · exact h.pages q hq
    · cases hq
  · intro q answer hq
    rcases hnew _ hq with hq | ⟨record, hq, -⟩
    · exact hsub (h.sent q answer hq)
    · cases hq
  intro q record hq
  rcases hnew _ hq with hq | ⟨record', hq, hrecorded⟩
  · obtain ⟨hqread, hold⟩ := h.rejected q record hq
    obtain ⟨row, hrow, hstored⟩ := hold.stored
    refine ⟨hsub hqread, notBehind_trans hforward hold.past, hold.previous, hold.next,
      _, hstate, ?_⟩
    have howner : row.endpointFingerprint = fingerprint := by
      cases hrow.symm.trans hr.state
      rfl
    rw [← howner]
    exact hkept hstored
  · obtain ⟨rfl, rfl⟩ := rejected.inj hq
    exact ⟨hsub hread, hrecorded⟩

theorem save_inv (hphase : w.phase = .accepted p) (now : ℤ) (ack : Ack) :
    Inv (save s w p now ack) := by
  have hwi := h.worker w hw
  obtain ⟨hp, hr, hread⟩ := hwi.of_page (p := p) (by rw [hphase]; rfl)
  have hidle : ∀ store v, some { w with phase := .idle } = some v →
      WorkerInv s.tables store s.history v := by
    intro store v hv
    rw [← some.inj hv]
    exact idle hp
  apply commit_state fun store => Inv (inPhase { s with store := store } w .idle)
  · exact h.withWorker (hidle s.store)
  intro _ store hsave
  obtain ⟨row, -, -, hstore⟩ := saveRemoteWriteCursor_ok hsave
  have hstate : store.state = some ⟨w.fingerprint, p.batch.next⟩ := by rw [hstore]
  have hkept : store.rejections = s.store.rejections := by rw [hstore]
  exact h.advance hr hread hstate (hkept ▸ List.Subset.refl _) (List.Subset.refl _)
    (fun e he => .inl he) (hwi.accepted p hphase) h.ordered (hidle store)

/-- A rejected page is recorded, with the cursor, exactly when it was not yet. -/
theorem persisted_inv {p : Pending} (hp : w.pending = some p)
    (hrej : rejectRemoteWritePage s.store w.fingerprint p.record = .ok ((), store))
    {pending : Option Pending} (hpending : pending = none ∨ pending = some p) : Inv { s with
      store := store
      history := s.history ++ rejectedEvents s.store store p
      worker := some { w with pending := pending } } := by
  have hpi := (h.worker w hw).pending p hp
  have hworker : ∀ store' history', PendingInv s.tables store' history' w p →
      ∀ v, some { w with pending := pending } = some v → WorkerInv s.tables store' history' v := by
    intro store' history' hinv v hv
    rw [← some.inj hv]
    refine ⟨?_, ?_, ?_, ?_, ?_⟩
    iterate 4
      simp only [hpi.idle]
      exact nofun
    intro q hq
    rcases hpending with hnone | hsome
    · cases hnone.symm.trans hq
    · cases hsome.symm.trans hq
      exact { hinv with }
  by_cases hsame : store = s.store
  · subst hsame
    rw [rejectedEvents, if_pos rfl, append_nil]
    exact h.withWorker (hworker s.store s.history hpi)
  have hr : ReadingInv s.tables s.store w.fingerprint p.page.toReading := by
    rcases hpi.status with hr | ⟨hstored, -⟩
    · exact hr
    · cases hstored.symm.trans hrej
      exact absurd rfl hsame
  obtain ⟨row, hrow, -, -, hdup | ⟨hprev, hstore⟩⟩ := rejectRemoteWritePage_ok hrej
  · exact absurd hdup.2.2 hsame
  rw [rejectedEvents, if_neg hsame]
  have hevent : rejected p.page p.record ∈ s.history ++ [.rejected p.page p.record] :=
    mem_append_right _ (.head _)
  have hstate : store.state = some ⟨w.fingerprint, p.page.batch.next⟩ := by rw [hstore, ← hpi.next]
  have hrecorded : Recorded store p.page p.record := by
    refine ⟨?_, hpi.previous, hpi.next, _, hstate, ?_⟩
    · rw [Store.cursor, hstate]
      exact notBehind_refl _
    · rw [hstore]
      exact mem_append_right _ (.head _)
  have hkept : s.store.rejections ⊆ store.rejections := by
    rw [hstore]
    exact subset_append_left _ _
  apply h.advance hr hpi.read hstate hkept (subset_append_left _ _)
  · intro e he
    rcases mem_append.1 he with he | he
    · exact .inl he
    · exact .inr ⟨p.record, mem_singleton.1 he, hrecorded⟩
  · exact .inr (.inl ⟨p.record, hevent⟩)
  · refine pairwise_append.2 ⟨h.ordered, pairwise_singleton _ _, ?_⟩
    intro old hold new hnew
    rw [mem_singleton.1 hnew]
    cases old with
    | read q | sent q answer => trivial
    | rejected q record =>
      have hpast := (h.rejected q record hold).2.past
      rw [hr.cursor] at hpast
      exact hpast
  · apply hworker
    exact { hpi with
      read := mem_append_left _ hpi.read, status := .inr ⟨rejectRemoteWritePage_again hrej, hevent⟩ }

theorem persist_inv {p : Pending} (hp : w.pending = some p) (ack : Ack) :
    Inv (persistRejectedPage s w p ack) := by
  have hkept : Inv { s with
      history := s.history ++ rejectedEvents s.store s.store p
      worker := some { w with pending := some p } } := by
    rw [rejectedEvents, if_pos rfl, append_nil, ← hp]
    apply h.withWorker
    intro v hv
    exact h.worker v (hw.trans hv)
  unfold persistRejectedPage
  rcases hrej : rejectRemoteWritePage s.store w.fingerprint p.record with e | result
  · exact hkept
  obtain ⟨⟨⟩, store⟩ := result
  cases ack with
  | delivered => exact persisted_inv h hw hp hrej (.inl rfl)
  | lost => exact persisted_inv h hw hp hrej (.inr rfl)
  | aborted => exact hkept

theorem workerStep_inv (op : WorkerOp) : Inv (workerStep s w op) := by
  fun_cases workerStep s w op <;> try exact h
  next hphase hp => exact load_inv h hw hp hphase _
  next hphase => exact query_inv h hw hphase
  next hphase => exact h.inPhase (idle ((h.worker w hw).pending_none (by rw [hphase]; exact nofun)))
  next hphase => exact push_inv h hw hphase _ _ _
  next hphase => exact save_inv h hw hphase _ _
  next hp => exact persist_inv h hw hp _
  · exact h.withWorker (by simp)

end

section

variable {s : State} {w : Worker} {t t' : Tables} {store : Store} {history : List Event}

theorem WorkerInv.withTables (h : WorkerInv t store history w)
    (hcovers : ∀ r, w.inFlight = some r → r.Covers t → r.Covers t')
    (hhigh : t'.high.notBehind t.high) : WorkerInv t' store history w := by
  have hreading : ∀ {r : Reading}, w.inFlight = some r → ReadingInv t store w.fingerprint r →
      ReadingInv t' store w.fingerprint r := fun hr hinv =>
    ⟨hinv.state, hcovers _ hr hinv.covers, notBehind_trans hhigh hinv.within⟩
  refine { h with reading := ?_, pending := ?_ }
  · intro r hr
    have hp : w.pending = none := h.pending_none (by rintro hidle; rw [hidle] at hr; cases hr)
    apply hreading _ (h.reading r hr)
    rw [inFlight, hp]
    exact hr
  · intro p hp
    have hpi := h.pending p hp
    refine { hpi with status := ?_, within := notBehind_trans hhigh hpi.within }
    rcases hpi.status with hwaiting | hstored
    · refine .inl (hreading ?_ hwaiting)
      rw [inFlight, hp]
    · exact .inr hstored

theorem tables_inv (h : Inv s) {op : TableOp} (hop : Unsealed s (.tables op)) :
    Inv { s with tables := tableStep s.tables op } := by
  have htables := tableStep_inv h.tables op
  rcases tableStep_rows s.tables op with ⟨id, tx, rfl, htx, hstep⟩ | hhidden
  · have hbeyond : ∀ c ∈ s.marks, tx.Beyond c := hop tx htx
    rw [hstep] at htables ⊢
    refine { h with
      tables := htables, within := notBehind_trans commitTx_high h.within, worker := ?_, accounted := ?_ }
    · intro w hw
      apply (h.worker w hw).withTables _ commitTx_high
      intro r hr hcovers
      apply hcovers.commitTx
      apply hbeyond
      have hflight : s.worker.bind inFlight = some r := by
        rw [hw]
        exact hr
      simp [State.marks, hflight]
    · exact h.accounted.commitTx (hbeyond _ (by simp [State.marks]))
  · have hhigh : (tableStep s.tables op).high.notBehind s.tables.high := by
      rw [hhidden.high]
      exact notBehind_refl _
    refine { h with
      tables := htables, within := notBehind_trans hhigh h.within, worker := ?_, accounted := ?_ }
    · intro w hw
      apply (h.worker w hw).withTables _ hhigh
      intro r _ hcovers
      exact hcovers.subset hhidden.assets hhidden.hubs
    · exact h.accounted.subset hhidden.assets hhidden.hubs

theorem step_inv (h : Inv s) {op : Op} (hop : Unsealed s op) : Inv (step s op) := by
  rcases op with op | op
  · exact tables_inv h hop
  simp only [step]
  rcases hw : s.worker with _ | w
  case some => exact workerStep_inv h hw op
  simp only
  split
  next fingerprint =>
    apply h.withWorker
    intro v hv
    cases hv
    exact idle (w := ⟨fingerprint, none, .idle⟩) rfl
  · exact h

theorem init_inv : Inv init := by
  refine ⟨⟨by simp [init], by simp [init], by simp [init]⟩, notBehind_refl _, by simp [init],
    ⟨by simp [init], by simp [init]⟩, by simp [init], by simp [init], by simp [init], ?_⟩
  exact List.Pairwise.nil

/-- The worker is never past the highest row that was visible. -/
theorem Inv.marks_within (h : Inv s) {c : Cursor} (hc : c ∈ s.marks) :
    s.tables.high.notBehind c := by
  rcases mem_cons.1 hc with rfl | hc
  · exact h.within
  obtain ⟨r, hr, rfl⟩ := map_eq_some_iff.1 (mem_toList.1 hc)
  obtain ⟨w, hw, hflight⟩ := bind_eq_some_iff.1 hr
  have hwi := h.worker w hw
  unfold inFlight at hflight
  split at hflight
  next p hp =>
    cases hflight
    exact (hwi.pending p hp).within
  · exact (hwi.reading r hflight).within

theorem Inv.unsealed (h : Inv s) {op : Op} (hop : InOrder s op) : Unsealed s op := by
  unfold InOrder Unsealed OnCommit at *
  split
  next id =>
    intro tx htx c hc
    have hhigh := h.marks_within hc
    obtain ⟨hassets, hhubs⟩ := hop tx htx
    exact ⟨fun row hrow => lt_of_le_of_lt hhigh.1 (hassets row hrow),
      fun row hrow => lt_of_le_of_lt hhigh.2 (hhubs row hrow)⟩
  · trivial

end

end LabTether.RemoteWrite
