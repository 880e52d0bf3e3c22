import LabTether.RecordingRetention

/-!
What the retention of recordings keeps. Only rows of a batch are touched, a batch has only rows
that have expired under the cutoff of the call, and a row goes only after its file. For the bound
on the sweep, a row is ahead of the cursor or it is not: ahead, every call that commits brings
the cursor a batch closer; behind, every such call brings the end of the sweep a batch closer.
-/
namespace LabTether.RecordingRetention

open KeysetSweep Transition List Recording Function

variable {ι : Type} {s : Store ι} {a : Call ι} {found : List (Recording ι)} {cutoff : ℕ}
  {files files' : String → Option FileKind} {items : List (Recording ι)} {x : Recording ι}

theorem removeRecordingFile_cases {stuck : String → Bool} {path : String}
    (h : removeRecordingFile stuck files path = some files') :
    files' path = none ∧ ∀ p, files' p = files p ∨ (files' p = none ∧ p = path) := by
  unfold removeRecordingFile at h
  split_ifs at h
  split at h
  · rename_i hnone
    cases h
    exact ⟨hnone, fun _ => .inl rfl⟩
  · cases h
  cases h
  refine ⟨update_self .., fun p => ?_⟩
  by_cases hp : p = path
  · subst hp
    exact .inr ⟨update_self .., rfl⟩
  · exact .inl (update_of_ne hp ..)

theorem removeEach_files (a : Call ι) (items : List (Recording ι))
    (files : String → Option FileKind)
    (p : String) : (removeEach a items files).1 p = files p ∨
      ((removeEach a items files).1 p = none ∧ p ∈ items.map path) := by
  fun_induction removeEach a items files
  case case1 | case2 => exact .inl rfl
  case case3 ih =>
    rcases ih with hsame | ⟨hnone, hmem⟩
    · exact .inl hsame
    · exact .inr ⟨hnone, .tail _ hmem⟩
  case case4 hremoved _ ih =>
    rcases ih with hsame | ⟨hnone, hmem⟩
    · rcases (removeRecordingFile_cases hremoved).2 p with hfile | ⟨hnone, rfl⟩
      · exact .inl (hsame.trans hfile)
      · exact .inr ⟨hsame.trans hnone, .head _⟩
    · exact .inr ⟨hnone, .tail _ hmem⟩
  case case5 hremoved _ =>
    rcases (removeRecordingFile_cases hremoved).2 p with hfile | ⟨hnone, rfl⟩
    · exact .inl hfile
    · exact .inr ⟨hnone, .head _⟩

theorem removeEach_deleted {ids : List ι} (h : (removeEach a items files).2 = some ids) {id : ι}
    (hid : id ∈ ids) :
    ∃ item ∈ items, item.id = id ∧ (removeEach a items files).1 item.path = none := by
  fun_induction removeEach a items files generalizing ids
  case case1 =>
    cases h
    cases hid
  case case2 | case5 => cases h
  case case3 ih =>
    obtain ⟨r, hr, hrest⟩ := ih h hid
    exact ⟨r, .tail _ hr, hrest⟩
  case case4 item items _ _ files' hremoved _ ih =>
    obtain ⟨ids', hids', rfl⟩ := Option.map_eq_some_iff.1 h
    rcases mem_cons.1 hid with rfl | hid
    · refine ⟨item, .head _, rfl, ?_⟩
      rcases removeEach_files a items files' item.path with hsame | ⟨hnone, -⟩
      · exact hsame.trans (removeRecordingFile_cases hremoved).1
      · exact hnone
    · obtain ⟨r, hr, hrest⟩ := ih hids' hid
      exact ⟨r, .tail _ hr, hrest⟩

section

variable {r : Recording ι}

theorem Recording.expired_mono {c c' : ℕ} (h : c ≤ c') (hr : r.expired c = true) :
    r.expired c' = true := by
  unfold expired at hr ⊢
  simp only [Bool.and_eq_true, decide_eq_true_eq] at hr ⊢
  exact ⟨hr.1, hr.2.trans_le h⟩

theorem sweepCutoff_le (cursor : Option (Cursor ι)) (c : ℕ) : sweepCutoff cursor c ≤ c := by
  unfold sweepCutoff
  split
  · split_ifs <;> omega
  · exact le_rfl

theorem sweepCutoff_some {C : ℕ} (time : ℕ) (id : ι) (hC : cutoff ≤ C) :
    sweepCutoff (some ⟨time, cutoff, id⟩) C = cutoff := by
  unfold sweepCutoff
  dsimp only
  split_ifs <;> omega

variable [LinearOrder ι]

theorem mem_readExpiredRecordingBatch {cursor : Option (Cursor ι)}
    (h : r ∈ readExpiredRecordingBatch s a cutoff cursor) : r ∈ s.rows ∧ r.expired cutoff = true := by
  have hmem := (mem_of_mem_batch h).1
  rw [mem_filter, Bool.and_eq_true] at hmem
  exact ⟨hmem.1, hmem.2.1⟩

theorem selectBatch_cases (h : selectBatch s a = some (found, cutoff)) :
    (cutoff = sweepCutoff s.cursor a.cutoff ∧
      found = readExpiredRecordingBatch s a (sweepCutoff s.cursor a.cutoff) s.cursor ∧
      (found = [] → s.cursor = none)) ∨
    (readExpiredRecordingBatch s a (sweepCutoff s.cursor a.cutoff) s.cursor = [] ∧
      cutoff = a.cutoff ∧ found = readExpiredRecordingBatch s a a.cutoff none) := by
  unfold selectBatch at h
  dsimp only at h
  split_ifs at h with hbegin hexhausted hreread
  · simp only [Option.some.injEq, Prod.mk.injEq] at h
    rw [Bool.and_eq_true, List.isEmpty_iff] at hexhausted
    exact .inr ⟨hexhausted.1, h.2.symm, h.1.symm⟩
  simp only [Option.some.injEq, Prod.mk.injEq] at h
  refine .inl ⟨h.2.symm, h.1.symm, fun hempty => ?_⟩
  rw [← h.1] at hempty
  simpa [hempty] using hexhausted

theorem mem_selectBatch (h : selectBatch s a = some (found, cutoff))
    (hr : r ∈ found) : r ∈ s.rows ∧ r.expired a.cutoff = true := by
  rcases selectBatch_cases h with ⟨-, rfl, -⟩ | ⟨-, -, rfl⟩
  · obtain ⟨hmem, hexpired⟩ := mem_readExpiredRecordingBatch hr
    exact ⟨hmem, expired_mono (sweepCutoff_le _ _) hexpired⟩
  · exact mem_readExpiredRecordingBatch hr

theorem prune_cases (s : Store ι) (a : Call ι) : pruneExpiredRecordings s a = (.broken, s) ∨
    ∃ found cutoff, selectBatch s a = some (found, cutoff) ∧
      let swept : Store ι := { s with files := (removeEach a found s.files).1 }
      pruneExpiredRecordings s a = (.broken, swept) ∨
      ∃ ids, (removeEach a found s.files).2 = some ids ∧
        (pruneExpiredRecordings s a = (.broken, swept.delete ids) ∨
        pruneExpiredRecordings s a = (.committed ids.length (found.length - ids.length),
          { swept.delete ids with cursor := nextCursor found cutoff })) := by
  unfold pruneExpiredRecordings
  rcases hselect : selectBatch s a with _ | p
  · exact .inl rfl
  obtain ⟨found, cutoff⟩ := p
  refine .inr ⟨found, cutoff, rfl, ?_⟩
  dsimp only
  generalize removeEach a found s.files = removed
  obtain ⟨files, deleted⟩ := removed
  rcases deleted with _ | ids
  · exact .inl rfl
  cases a.commit with
  | fails => exact .inl rfl
  | lost => exact .inr ⟨ids, rfl, .inl rfl⟩
  | succeeds => exact .inr ⟨ids, rfl, .inr rfl⟩

theorem mem_delete {ids : List ι} : x ∈ (s.delete ids).rows ↔ x ∈ s.rows ∧ x.id ∉ ids := by
  simp [Store.delete, Store.rows, Recordings.keep]

/-- A row that a call deletes had expired under its cutoff, and its file is gone. -/
theorem prune_deletes (hx : x ∈ s.rows) (hgone : x ∉ (pruneExpiredRecordings s a).2.rows) :
    (pruneExpiredRecordings s a).2.files x.path = none ∧ x.expired a.cutoff = true := by
  rcases prune_cases s a with heq | ⟨found, cutoff, hselect, heq | ⟨ids, hids, heq | heq⟩⟩
  · rw [heq] at hgone
    exact absurd hx hgone
  · rw [heq] at hgone
    exact absurd hx hgone
  all_goals
    rw [heq] at hgone ⊢
    have hid : x.id ∈ ids := by
      by_contra hout
      exact hgone (mem_delete.2 ⟨hx, hout⟩)
    obtain ⟨item, hitem, heqid, hfile⟩ := removeEach_deleted hids hid
    obtain ⟨hmem, hexpired⟩ := mem_selectBatch hselect hitem
    have hsame : item = x := inj_on_of_nodup_map s.recordings.ids hmem hx heqid
    subst hsame
    exact ⟨hfile, hexpired⟩

/-- A file that a call removes belongs to a row that had expired under its cutoff. -/
theorem prune_removes (hx : x ∈ s.rows)
    (hremoved : (pruneExpiredRecordings s a).2.files x.path ≠ s.files x.path) :
    x.expired a.cutoff = true := by
  rcases prune_cases s a with heq | ⟨found, cutoff, hselect, hrest⟩
  · rw [heq] at hremoved
    exact absurd rfl hremoved
  have hfiles : (pruneExpiredRecordings s a).2.files = (removeEach a found s.files).1 := by
    rcases hrest with heq | ⟨ids, -, heq | heq⟩ <;> rw [heq] <;> rfl
  rw [hfiles] at hremoved
  obtain ⟨-, hpath⟩ := (removeEach_files a found s.files x.path).resolve_left hremoved
  obtain ⟨item, hitem, heqpath⟩ := mem_map.1 hpath
  obtain ⟨hmem, hexpired⟩ := mem_selectBatch hselect hitem
  have hsame : item = x := inj_on_of_nodup_map s.recordings.paths hmem hx heqpath
  exact hsame ▸ hexpired

theorem prune_sublist (s : Store ι) (a : Call ι) :
    (pruneExpiredRecordings s a).2.rows.Sublist s.rows := by
  rcases prune_cases s a with heq | ⟨found, cutoff, -, heq | ⟨ids, -, heq | heq⟩⟩
  · exact heq ▸ Sublist.refl _
  · exact heq ▸ Sublist.refl _
  all_goals exact heq ▸ filter_sublist

theorem prune_committed (h : (pruneExpiredRecordings s a).1.isCommitted = true) :
    ∃ found cutoff, selectBatch s a = some (found, cutoff) ∧
      (pruneExpiredRecordings s a).2.cursor = nextCursor found cutoff := by
  rcases prune_cases s a with heq | ⟨found, cutoff, hselect, heq | ⟨ids, -, heq | heq⟩⟩
  iterate 3
    rw [heq] at h
    cases h
  · exact ⟨found, cutoff, hselect, by rw [heq]⟩

theorem prune_broken (h : (pruneExpiredRecordings s a).1.isCommitted = false) :
    (pruneExpiredRecordings s a).2.cursor = s.cursor := by
  rcases prune_cases s a with heq | ⟨found, cutoff, -, heq | ⟨ids, -, heq | heq⟩⟩
  · rw [heq]
  · rw [heq]
  · rw [heq]
    rfl
  · rw [heq] at h
    cases h

omit [LinearOrder ι] in
theorem nextCursor_of_full (h : found.length = recordingPruneBatchSize) (cutoff : ℕ) :
    ∃ last, found.getLast? = some last ∧
      nextCursor found cutoff = some ⟨last.time, cutoff, last.id⟩ := by
  have hne : found ≠ [] := by
    intro hnil
    rw [hnil] at h
    cases h
  rcases hlast : found.getLast? with _ | last
  · exact absurd (getLast?_eq_none_iff.1 hlast) hne
  refine ⟨last, rfl, ?_⟩
  rw [nextCursor, if_pos h, hlast]
  rfl

end

section

variable [LinearOrder ι] {C n k : ℕ}

def Store.cursorKey (s : Store ι) : Option (ℕ ×ₗ ι) := s.cursor.map Cursor.key

open Store

def Store.swept (s : Store ι) (C : ℕ) : List (Recording ι) :=
  s.rows.filter (·.expired (sweepCutoff s.cursor C))

/-- The sweep under way will come to the row. -/
def Ahead (C : ℕ) (x : Recording ι) (s : Store ι) : Prop :=
  x.expired (sweepCutoff s.cursor C) = true ∧ After s.cursorKey x.key

def distance (C : ℕ) (x : Recording ι) (s : Store ι) : ℕ :=
  left key s.cursorKey (fun r => decide (r.key ≤ x.key)) (s.swept C)

def remaining (C : ℕ) (s : Store ι) : ℕ :=
  left key s.cursorKey (fun _ => true) (s.swept C)

/-- So many calls that commit bring the row into a batch. -/
def Within (C n k : ℕ) (x : Recording ι) (s : Store ι) : Prop :=
  (Ahead C x s ∧ distance C x s ≤ recordingPruneBatchSize * k) ∨
  (¬ Ahead C x s ∧ ∃ k₁ k₂, k = k₁ + k₂ ∧ remaining C s < recordingPruneBatchSize * k₁ ∧
    n ≤ recordingPruneBatchSize * k₂)

omit [LinearOrder ι] in
theorem keys_nodup (s : Store ι) (p : Recording ι → Bool) :
    ((s.rows.filter p).map key).Nodup := by
  have hids : ((s.rows.filter p).map Recording.id).Nodup :=
    s.recordings.ids.sublist (filter_sublist.map _)
  have hsnd : (s.rows.filter p).map Recording.id =
      ((s.rows.filter p).map key).map fun k => (ofLex k).2 := by
    rw [map_map]
    rfl
  rw [hsnd] at hids
  exact hids.of_map _

variable (hfree : ∀ id, a.locked id = false)
include hfree

theorem readExpiredRecordingBatch_unlocked (c : ℕ) (cursor : Option (Cursor ι)) :
    readExpiredRecordingBatch s a c cursor =
      batch key recordingPruneBatchSize (cursor.map Cursor.key)
        (s.rows.filter (·.expired c)) := by
  unfold readExpiredRecordingBatch
  simp [hfree]

omit hfree in
theorem left_swept_le (p : Recording ι → Bool) :
    left key s.cursorKey p (s.swept C) ≤ s.rows.countP (·.expired C) := by
  refine left_le.trans (countP_le_length.trans ?_)
  rw [swept, ← countP_eq_length_filter]
  exact countP_mono_left fun r _ h => expired_mono (sweepCutoff_le _ _) h

variable {s' : Store ι} {last : Recording ι} {c : Option (ℕ ×ₗ ι)}

omit hfree in
theorem full_step {p : Recording ι → Bool} (hcutoff : cutoff ≤ C)
    (hfound : found = batch key recordingPruneBatchSize c
      (s.rows.filter (·.expired cutoff))) (hfull : found.length = recordingPruneBatchSize)
    (hlast : found.getLast? = some last) (hp : ∀ r ∈ found, p r = true)
    (hcursor : s'.cursor = some ⟨last.time, cutoff, last.id⟩) (hrows : s'.rows.Sublist s.rows) :
    left key s'.cursorKey p (s'.swept C) + recordingPruneBatchSize ≤
      left key c p (s.rows.filter (·.expired cutoff)) := by
  have hkey : s'.cursorKey = some last.key := by rw [cursorKey, hcursor]; rfl
  have hswept : (s'.swept C).Sublist (s.rows.filter (·.expired cutoff)) := by
    rw [swept, hcursor, sweepCutoff_some _ _ hcutoff]
    exact hrows.filter _
  subst hfound
  have hless := left_last hfull hlast hp
  have hmono : left key (some last.key) p _ ≤ left _ _ _ _ := left_sublist hswept
  rw [hkey]
  omega

/-- Ahead of the cursor: the row is in the batch, or the cursor comes closer. -/
theorem Ahead.step (hC : a.cutoff = C)
    (hselect : selectBatch s a = some (found, cutoff)) (hcursor : s'.cursor = nextCursor found cutoff)
    (hrows : s'.rows.Sublist s.rows) (hx : x ∈ s.rows) (hout : x ∉ found) (h : Ahead C x s) :
    Ahead C x s' ∧ distance C x s' + recordingPruneBatchSize ≤ distance C x s := by
  subst hC
  have hmem : x ∈ s.swept a.cutoff := mem_filter.2 ⟨hx, h.1⟩
  have hread : readExpiredRecordingBatch s a (sweepCutoff s.cursor a.cutoff) s.cursor =
      batch key recordingPruneBatchSize s.cursorKey (s.swept a.cutoff) :=
    readExpiredRecordingBatch_unlocked hfree _ _
  rcases selectBatch_cases hselect with ⟨rfl, hfound, -⟩ | ⟨hempty, -, -⟩
  · rw [hread] at hfound
    have hfull := length_batch_of_not_mem hmem h.2 (hfound ▸ hout)
    rw [← hfound] at hfull
    obtain ⟨last, hlast, hnext⟩ := nextCursor_of_full hfull (sweepCutoff s.cursor a.cutoff)
    have hlt : last.key < x.key := lt_of_not_mem_batch (keys_nodup s _) hmem h.2 (hfound ▸ hout)
      (hfound ▸ hlast)
    have hle : ∀ r ∈ found, decide (r.key ≤ x.key) = true := by
      intro r hr
      exact decide_eq_true ((le_last (hfound ▸ hr) (hfound ▸ hlast)).trans hlt.le)
    refine ⟨⟨?_, ?_⟩, full_step (sweepCutoff_le _ _) hfound hfull hlast hle (hcursor.trans hnext) hrows⟩
    · rw [hcursor, hnext, sweepCutoff_some _ _ (sweepCutoff_le _ _)]
      exact h.1
    rw [cursorKey, hcursor, hnext]
    intro c hc
    cases hc
    exact hlt
  · rw [hread] at hempty
    have hin := mem_batch_of_short (by rw [hempty]; exact Nat.succ_pos _) hmem h.2
    rw [hempty] at hin
    cases hin

omit hfree in
theorem After.of_last {k : ℕ ×ₗ ι} (hlast : After c last.key) (hk : After (some last.key) k) :
    After c k :=
  fun c' hc' => (hlast c' hc').trans (hk _ rfl)

/-- Behind the cursor: the sweep ends and starts again before the row, or its end comes closer. -/
theorem behind_step (hC : a.cutoff = C)
    (hselect : selectBatch s a = some (found, cutoff)) (hcursor : s'.cursor = nextCursor found cutoff)
    (hrows : s'.rows.Sublist s.rows) (hx : x ∈ s.rows) (hexpired : x.expired C = true)
    (hout : x ∉ found) (h : ¬ Ahead C x s) :
    Ahead C x s' ∨ (¬ Ahead C x s' ∧ remaining C s' + recordingPruneBatchSize ≤ remaining C s) := by
  subst hC
  rcases selectBatch_cases hselect with ⟨rfl, hfound, -⟩ | ⟨-, rfl, hfound⟩
  · have hread : found = batch key recordingPruneBatchSize s.cursorKey (s.swept a.cutoff) :=
      hfound.trans (readExpiredRecordingBatch_unlocked hfree _ _)
    by_cases hfull : found.length = recordingPruneBatchSize
    · obtain ⟨last, hlast, hnext⟩ := nextCursor_of_full hfull (sweepCutoff s.cursor a.cutoff)
      have hafter := (mem_of_mem_batch (hread ▸ mem_of_getLast? hlast)).2
      refine .inr ⟨fun hahead => h ?_, full_step (sweepCutoff_le _ _) hread hfull hlast
        (fun _ _ => rfl) (hcursor.trans hnext) hrows⟩
      have hkey : s'.cursorKey = some last.key := by rw [cursorKey, hcursor, hnext]; rfl
      obtain ⟨hin, hlate⟩ := hahead
      rw [hcursor, hnext, sweepCutoff_some _ _ (sweepCutoff_le _ _)] at hin
      exact ⟨hin, After.of_last hafter (hkey ▸ hlate)⟩
    · rw [nextCursor, if_neg hfull] at hcursor
      rw [Ahead, cursorKey, hcursor]
      exact .inl ⟨hexpired, nofun⟩
  · rw [readExpiredRecordingBatch_unlocked hfree] at hfound
    have hmem := mem_filter.2 ⟨hx, hexpired⟩
    have hnone : After none x.key := nofun
    have hfull := length_batch_of_not_mem hmem hnone (hfound ▸ hout)
    have hfull' : found.length = recordingPruneBatchSize := hfound ▸ hfull
    obtain ⟨last, hlast, hnext⟩ := nextCursor_of_full hfull' a.cutoff
    have hlt : last.key < x.key := lt_of_not_mem_batch (keys_nodup s _) hmem hnone
      (hfound ▸ hout) (hfound ▸ hlast)
    rw [Ahead, cursorKey, hcursor, hnext, sweepCutoff_some _ _ (le_rfl)]
    refine .inl ⟨hexpired, fun c hc => ?_⟩
    cases hc
    exact hlt

/-- A call that commits and does not come to the row brings it one call closer. -/
theorem Within.committed (hC : a.cutoff = C)
    (hselect : selectBatch s a = some (found, cutoff)) (hcursor : s'.cursor = nextCursor found cutoff)
    (hrows : s'.rows.Sublist s.rows) (hx : x ∈ s.rows) (hexpired : x.expired C = true)
    (hout : x ∉ found) (hn : s'.rows.countP (·.expired C) ≤ n) (h : Within C n k x s) :
    ∃ k', k = k' + 1 ∧ Within C n k' x s' := by
  unfold Within recordingPruneBatchSize at *
  rcases h with ⟨hahead, hdistance⟩ | ⟨hbehind, k₁, k₂, rfl, hleft, hk₂⟩
  · obtain ⟨hahead', hcloser⟩ := hahead.step hfree hC hselect hcursor hrows hx hout
    unfold recordingPruneBatchSize at hcloser
    exact ⟨k - 1, by omega, .inl ⟨hahead', by omega⟩⟩
  rcases behind_step hfree hC hselect hcursor hrows hx hexpired hout hbehind with
    hahead' | ⟨hbehind', hcloser⟩
  · have hall : distance C x s' ≤ s'.rows.countP (·.expired C) := left_swept_le _
    exact ⟨k₁ - 1 + k₂, by omega, .inl ⟨hahead', by omega⟩⟩
  · unfold recordingPruneBatchSize at hcloser
    exact ⟨k₁ - 1 + k₂, by omega, .inr ⟨hbehind', k₁ - 1, k₂, rfl, by omega, hk₂⟩⟩

omit hfree

theorem Within.broken (hcursor : s'.cursor = s.cursor) (hrows : s'.rows.Sublist s.rows)
    (h : Within C n k x s) : Within C n k x s' := by
  have hkey : s'.cursorKey = s.cursorKey := by rw [cursorKey, hcursor]; rfl
  have hswept : (s'.swept C).Sublist (s.swept C) := by
    rw [swept, hcursor]
    exact hrows.filter _
  have hahead : Ahead C x s' ↔ Ahead C x s := by rw [Ahead, Ahead, hkey, hcursor]
  unfold Within distance remaining at *
  rw [hahead, hkey]
  rcases h with ⟨h, hdistance⟩ | ⟨h, k₁, k₂, hk, hleft, hk₂⟩
  · exact .inl ⟨h, (left_sublist hswept).trans hdistance⟩
  · exact .inr ⟨h, k₁, k₂, hk, (left_sublist hswept).trans_lt hleft, hk₂⟩

theorem not_within_zero (hx : x ∈ s.rows) : ¬ Within C n 0 x s := by
  intro h
  unfold Within recordingPruneBatchSize at h
  rcases h with ⟨hahead, hdistance⟩ | ⟨-, k₁, k₂, hk, hleft, -⟩
  · have hself : 0 < distance C x s := by
      refine countP_pos_iff.2 ⟨x, mem_filter.2 ⟨hx, hahead.1⟩, ?_⟩
      simp [hahead.2]
    omega
  · omega

theorem within_start (hn : s.rows.countP (·.expired C) ≤ n) :
    Within C n (n / 256 + 1 + (n / 256 + 1)) x s := by
  have hdistance : distance C x s ≤ s.rows.countP (·.expired C) := left_swept_le _
  have hleft : remaining C s ≤ s.rows.countP (·.expired C) := left_swept_le _
  unfold Within recordingPruneBatchSize
  by_cases h : Ahead C x s
  · exact .inl ⟨h, by omega⟩
  · exact .inr ⟨h, n / 256 + 1, n / 256 + 1, rfl, by omega, by omega⟩

end

variable [LinearOrder ι] {C n k : ℕ}

def Store.pruneAll (s : Store ι) (calls : List (Call ι)) : Store ι :=
  calls.foldl (fun s a => (pruneExpiredRecordings s a).2) s

def commits : Store ι → List (Call ι) → ℕ
  | _, [] => 0
  | s, a :: calls => (if (pruneExpiredRecordings s a).1.isCommitted then 1 else 0) +
      commits (pruneExpiredRecordings s a).2 calls

/-- The rows whose files the calls that commit have tried to remove. -/
def attempted : Store ι → List (Call ι) → List (Recording ι)
  | _, [] => []
  | s, a :: calls =>
    (if (pruneExpiredRecordings s a).1.isCommitted then ((selectBatch s a).map Prod.fst).getD []
      else []) ++ attempted (pruneExpiredRecordings s a).2 calls

theorem pruneAll_sublist (calls : List (Call ι)) (s : Store ι) :
    (s.pruneAll calls).rows.Sublist s.rows := by
  induction calls generalizing s with
  | nil => exact Sublist.refl _
  | cons a calls ih => exact (ih _).trans (prune_sublist s a)

theorem mem_attempted_of_within {calls : List (Call ι)}
    (hcalls : ∀ a ∈ calls, a.cutoff = C ∧ ∀ id, a.locked id = false)
    (hn : s.rows.countP (·.expired C) ≤ n) (hexpired : x.expired C = true)
    (hx : x ∈ (s.pruneAll calls).rows) (hk : k ≤ commits s calls) (h : Within C n k x s) :
    x ∈ attempted s calls := by
  induction calls generalizing s k with
  | nil =>
    have hzero : k = 0 := Nat.le_zero.1 hk
    subst hzero
    exact absurd h (not_within_zero hx)
  | cons a calls ih =>
    obtain ⟨⟨hC, hfree⟩, hrest⟩ := forall_mem_cons.1 hcalls
    have hrows := prune_sublist s a
    have hn' := (hrows.countP_le (p := fun r => r.expired C)).trans hn
    have hx' : x ∈ s.rows := (pruneAll_sublist (a :: calls) s).subset hx
    rw [attempted]
    rw [commits] at hk
    cases hcommit : (pruneExpiredRecordings s a).1.isCommitted
    · rw [hcommit] at hk
      exact ih hrest hn' hx (by simpa using hk) (h.broken (prune_broken hcommit) hrows)
    rw [hcommit] at hk
    obtain ⟨found, cutoff, hselect, hcursor⟩ := prune_committed hcommit
    rw [hselect]
    by_cases hfound : x ∈ found
    · exact mem_append_left _ hfound
    obtain ⟨k', rfl, hwithin⟩ := h.committed hfree hC hselect hcursor hrows hx' hexpired hfound hn'
    have hk' : k' ≤ commits (pruneExpiredRecordings s a).2 calls := by
      simp only [if_true] at hk
      omega
    exact mem_append_right _ (ih hrest hn' hx hk' hwithin)

/-- From any store, after any events: a call deletes a row only when its file is gone, and it
leaves the row and the file of a recording that is in progress or not older than its cutoff. With
one cutoff and no row locked by others, every expired row that is still there was attempted in
any `2 * (n / 256 + 2)` calls that commit, where `n` rows had expired; calls that break off may
come between them. -/
theorem retention_safe_and_fair (s₀ : Store ι) (events : List (Event ι)) :
    (∀ a, ∀ r ∈ (run Store.step s₀ events).rows,
      (r ∉ (pruneExpiredRecordings (run Store.step s₀ events) a).2.rows →
        (pruneExpiredRecordings (run Store.step s₀ events) a).2.files r.path = none) ∧
      (r.status = .recording ∨ a.cutoff ≤ r.time →
        r ∈ (pruneExpiredRecordings (run Store.step s₀ events) a).2.rows ∧
        (pruneExpiredRecordings (run Store.step s₀ events) a).2.files r.path =
          (run Store.step s₀ events).files r.path)) ∧
    (∀ C calls, (∀ a ∈ calls, a.cutoff = C ∧ ∀ id, a.locked id = false) →
      2 * ((run Store.step s₀ events).rows.countP (·.expired C) / 256 + 2) ≤
        commits (run Store.step s₀ events) calls →
      ∀ r ∈ ((run Store.step s₀ events).pruneAll calls).rows, r.expired C = true →
        r ∈ attempted (run Store.step s₀ events) calls) := by
  generalize run Store.step s₀ events = s
  refine ⟨fun a r hr => ⟨fun hgone => (prune_deletes hr hgone).1, fun hyoung => ?_⟩, ?_⟩
  · have hkeep : ¬ r.expired a.cutoff = true := by
      unfold expired
      rw [Bool.and_eq_true, decide_eq_true_eq, decide_eq_true_eq]
      intro ⟨hstopped, hold⟩
      rcases hyoung with hrecording | hyoung
      · exact hstopped hrecording
      · exact absurd hold (Nat.not_lt.2 hyoung)
    constructor
    · by_contra hgone
      exact hkeep (prune_deletes hr hgone).2
    · by_contra hremoved
      exact hkeep (prune_removes hr hremoved)
  · intro C calls hcalls hcommits r hr hexpired
    refine mem_attempted_of_within hcalls (le_rfl) hexpired hr ?_ (within_start (le_rfl))
    omega

end LabTether.RecordingRetention
