import LabTether.RemoteWriteRows

/-!
The batch of a page of stored rows: it is built exactly if the asset columns that go into
labels are short, and it holds one sample for each point, a label set at a time, that the
rows to send have.
-/
namespace LabTether.RemoteWrite

open Transaction Paging List SampleCandidate

section

variable {target incoming : List SampleCandidate} {c d : SampleCandidate}

theorem mem_insertCanonicalCandidate (h : c ∈ insertCanonicalCandidate target d) :
    c ∈ target ∨ c = d := by
  unfold insertCanonicalCandidate at h
  split at h
  · simpa using h
  split at h
  · obtain ⟨b, hb, rfl⟩ := mem_map.1 h
    split
    · exact .inr rfl
    · exact .inl hb
  · exact .inl h

theorem identities_insertCanonicalCandidate (target : List SampleCandidate) (d : SampleCandidate) :
    (insertCanonicalCandidate target d).map identity =
      if d.identity ∈ target.map identity then
        target.map identity
      else target.map identity ++ [d.identity] := by
  fun_cases insertCanonicalCandidate target d
  case case1 hfind =>
    have hfresh : d.identity ∉ target.map identity := by
      intro hmem
      obtain ⟨b, hb, heq⟩ := mem_map.1 hmem
      have := find?_eq_none.1 hfind b hb
      simp [heq] at this
    rw [if_neg hfresh]
    simp
  all_goals
    have hfind : target.find? _ = some _ := ‹_›
    rw [if_pos (mem_map.2 ⟨_, mem_of_find?_eq_some hfind, by simpa using find?_some hfind⟩)]
  rw [map_map]
  apply map_congr_left
  intro b _
  simp only [Function.comp_apply]
  split
  next heq => exact heq.symm
  next => rfl

/-- What the loops leave of the candidates: one for each identity. -/
structure Chosen (incoming chosen : List SampleCandidate) : Prop where
  distinct : (chosen.map identity).Nodup
  subset : ∀ c ∈ chosen, c ∈ incoming
  covers : ∀ c ∈ incoming, c.identity ∈ chosen.map identity
  length : chosen.length ≤ incoming.length

theorem Chosen.insert (h : Chosen incoming target) (d : SampleCandidate) :
    Chosen (incoming ++ [d]) (insertCanonicalCandidate target d) := by
  have hids := identities_insertCanonicalCandidate target d
  refine ⟨?_, ?_, ?_, ?_⟩
  · rw [hids]
    split
    next => exact h.distinct
    next hfresh =>
      exact List.Nodup.append h.distinct (nodup_singleton _) (disjoint_singleton.2 hfresh)
  · intro c hc
    rcases mem_insertCanonicalCandidate hc with hc | rfl
    · exact mem_append_left _ (h.subset c hc)
    · exact mem_append_right _ (.head _)
  · intro c hc
    rw [hids]
    rcases mem_append.1 hc with hc | hc
    · have hmem := h.covers c hc
      split
      · exact hmem
      · exact mem_append_left _ hmem
    · rw [mem_singleton.1 hc]
      split
      next hmem => exact hmem
      next => exact mem_append_right _ (.head _)
  · have hlen := congrArg List.length hids
    have hle := h.length
    rw [length_map] at hlen
    rw [hlen, length_append, length_singleton]
    split
    · rw [length_map]
      omega
    · rw [length_append, length_map, length_singleton]
      omega

theorem foldl_insertCanonicalCandidate (h : Chosen incoming target) (rest : List SampleCandidate) :
    Chosen (incoming ++ rest) (rest.foldl insertCanonicalCandidate target) := by
  induction rest generalizing incoming target with
  | nil => simpa using h
  | cons d rest ih =>
    have hnext := ih (h.insert d)
    rw [append_assoc] at hnext
    exact hnext

end

section

/-- The candidate of an asset row, unless the exporter publishes its name itself. -/
def assetCandidate (row : AssetSampleRow) : Option SampleCandidate :=
  if isReservedPromMetricName row.metric then none
  else some (newSampleCandidate (assetSample row) row.metric row.labels row.id)

def hubCandidate (row : HubSampleRow) : SampleCandidate :=
  newSampleCandidate (hubSample row) row.metric row.labels row.id

def pageCandidates (assetRows : List AssetSampleRow) (hubRows : List HubSampleRow) :
    List SampleCandidate :=
  assetRows.filterMap assetCandidate ++ hubRows.map hubCandidate

variable {current : Cursor} {assetRows : List AssetSampleRow} {hubRows : List HubSampleRow}

theorem foldlM_candidates {α : Type} (key : α → ℕ) (candidate : α → Option SampleCandidate)
    {add : Progress → α → Except String Progress} {rows : List α} {prev : ℕ} (cs : Candidates)
    (hadd : ∀ row ∈ rows, ∀ prev cs, prev < key row → add ⟨prev, cs⟩ row =
      .ok ⟨key row, (candidate row).toList.foldl insertCanonicalCandidate cs⟩)
    (hasc : Ascends key prev rows) : ∃ id, rows.foldlM add ⟨prev, cs⟩ =
      .ok ⟨id, (rows.filterMap candidate).foldl insertCanonicalCandidate cs⟩ := by
  induction rows generalizing prev cs with
  | nil => exact ⟨prev, rfl⟩
  | cons row rows ih =>
    obtain ⟨hfirst, hrest⟩ := pairwise_cons.1 hasc
    obtain ⟨hrow, hrows⟩ := forall_mem_cons.1 hadd
    obtain ⟨id, hrun⟩ := ih _ hrows hrest
    refine ⟨id, ?_⟩
    rw [foldlM_cons, hrow prev cs (hfirst _ (by simp)), ok_bind, hrun]
    cases hcandidate : candidate row <;> simp [hcandidate]

theorem addAssetRow_written {row : AssetSampleRow} (hwritten : WrittenAsset row)
    (hshort : ShortMetadata row) (prev : ℕ) (cs : Candidates) (hlt : prev < row.id) :
    addAssetRow ⟨prev, cs⟩ row =
      .ok ⟨row.id, (assetCandidate row).toList.foldl insertCanonicalCandidate cs⟩ := by
  unfold addAssetRow assetCandidate
  rw [if_neg (by simpa using hlt), assetRowSample_eq hwritten, if_pos hshort]
  simp only
  split <;> rfl

theorem addHubRow_written {row : HubSampleRow} (hwritten : WrittenHub row) (prev : ℕ)
    (cs : Candidates) (hlt : prev < row.id) : addHubRow ⟨prev, cs⟩ row =
      .ok ⟨row.id, (some (hubCandidate row)).toList.foldl insertCanonicalCandidate cs⟩ := by
  unfold addHubRow
  rw [if_neg (by simpa using hlt), hubRowSample_eq hwritten]
  rfl

/-- A page of rows as the store reads it: by id, after the cursor. -/
structure StoredPage (current : Cursor) (assetRows : List AssetSampleRow)
    (hubRows : List HubSampleRow) : Prop where
  count : assetRows.length + hubRows.length ≤ maxSamplesPerRequest
  assets : ∀ row ∈ assetRows, WrittenAsset row
  hubs : ∀ row ∈ hubRows, WrittenHub row
  assetOrder : Ascends AssetSampleRow.id current.assetSampleID assetRows
  hubOrder : Ascends HubSampleRow.id current.hubSampleID hubRows

theorem buildBatch_of_short (h : StoredPage current assetRows hubRows)
    (hshort : ∀ row ∈ assetRows, ShortMetadata row) :
    ∃ batch chosen, buildBatch current assetRows hubRows = .ok batch ∧
      Chosen (pageCandidates assetRows hubRows) chosen ∧
      batch.samples.Perm (chosen.map sample) := by
  obtain ⟨assetID, hassets⟩ := foldlM_candidates AssetSampleRow.id assetCandidate []
    (fun row hrow => addAssetRow_written (h.assets row hrow) (hshort row hrow)) h.assetOrder
  obtain ⟨hubID, hhubs⟩ := foldlM_candidates HubSampleRow.id (some ∘ hubCandidate)
    ((assetRows.filterMap assetCandidate).foldl insertCanonicalCandidate [])
    (fun row hrow => addHubRow_written (h.hubs row hrow)) h.hubOrder
  rw [filterMap_eq_map, ← foldl_append] at hhubs
  have hnil : Chosen [] [] := ⟨by simp, by simp, by simp, le_rfl⟩
  have hchosen := foldl_insertCanonicalCandidate hnil (pageCandidates assetRows hubRows)
  have hbatch : buildBatch current assetRows hubRows = .ok
      ⟨(((pageCandidates assetRows hubRows).foldl insertCanonicalCandidate []).insertionSort
        identityLE).map sample, ⟨assetID, hubID⟩, false⟩ := by
    unfold buildBatch
    rw [if_neg (Nat.not_lt.2 h.count), hassets, ok_bind, hhubs]
    rfl
  exact ⟨_, _, hbatch, hchosen, (perm_insertionSort identityLE _).map _⟩

theorem short_of_buildBatch (h : StoredPage current assetRows hubRows) {batch : Batch}
    (hbatch : buildBatch current assetRows hubRows = .ok batch) :
    ∀ row ∈ assetRows, ShortMetadata row := by
  unfold buildBatch at hbatch
  rw [if_neg (Nat.not_lt.2 h.count)] at hbatch
  obtain ⟨assets, hassets, -⟩ := bind_eq_ok.1 hbatch
  apply foldlM_forall (fun _ => True) (fun (row : AssetSampleRow) (_ : Progress) => ShortMetadata row)
    ?_ (fun _ _ _ _ _ hshort _ => hshort) trivial hassets
  intro st row st' hrow _ hstep
  refine ⟨trivial, ?_⟩
  by_contra hlong
  unfold addAssetRow at hstep
  rw [assetRowSample_eq (h.assets row hrow), if_neg hlong] at hstep
  split at hstep <;> cases hstep

end

end LabTether.RemoteWrite
