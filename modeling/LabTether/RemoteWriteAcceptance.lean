import LabTether.RemoteWriteCandidates

/-!
Whether a page of stored rows can be exported. The batch is built and its request accepted
exactly if the stored asset columns are short and the rows to send are of a time after the
first millisecond of 1970; the exporter refuses the others, and stays at the page.
-/
namespace LabTether.RemoteWrite

open Telemetry Transaction Grouping Protobuf List SampleCandidate

section

variable {samples : List SampleWithLabels}

theorem repeatsTimestamp_of_distinct {l : List SampleWithLabels}
    (h : l.Pairwise fun a b => a.timestamp ≠ b.timestamp) : repeatsTimestamp l = false := by
  fun_induction repeatsTimestamp l
  case case1 a b rest ih =>
    obtain ⟨ha, hl⟩ := pairwise_cons.1 h
    simp [ha b (.head _), ih hl]
  case case2 => rfl

theorem exists_foldlM_addSample (hall : ∀ s ∈ samples, Acceptable s) (order : List WriteSeries) :
    ∃ order', samples.foldlM addSample order = .ok order' := by
  induction samples generalizing order with
  | nil => exact ⟨order, rfl⟩
  | cons s samples ih =>
    have hstep : addSample order s = .ok (put (fun _ => sortedLabels s.labels)
        (labelFingerprint s.labels) s order) := by
      unfold addSample
      rw [validateSample_eq_ok.2 (hall s (by simp))]
    obtain ⟨order', hrun⟩ := ih (fun t ht => hall t (by simp [ht])) _
    exact ⟨order', by rw [foldlM_cons, hstep, ok_bind, hrun]⟩

/-- Two samples that would fall on one point of one series. -/
def SamePoint (a b : SampleWithLabels) : Prop :=
  labelFingerprint a.labels = labelFingerprint b.labels ∧ a.timestamp = b.timestamp

theorem requestSeries_of_acceptable (hall : ∀ s ∈ samples, Acceptable s)
    (hpoints : samples.Pairwise fun a b => ¬ SamePoint a b) :
    ∃ order, requestSeries samples = .ok order := by
  obtain ⟨grouped, hgroup⟩ := exists_foldlM_addSample hall []
  have hnil : Grouped [] [] := ⟨nodup_nil, List.Perm.nil, by simp, by simp⟩
  have hgrouped := (foldlM_addSample hnil hgroup).2
  have hsort : ∀ b ∈ grouped, ∃ c, sortSeries b = .ok c := by
    intro b hb
    have hitems : b.items.Pairwise fun a b => ¬ SamePoint a b := by
      have hperm := hgrouped.contents.pairwise_iff
        (R := fun a b => ¬ SamePoint a b) fun hab hba => hab ⟨hba.1.symm, hba.2.symm⟩
      exact (hperm.2 hpoints).sublist (items_sublist hb)
    have htimes : b.items.Pairwise fun a b => a.timestamp ≠ b.timestamp := by
      refine hitems.imp_of_mem fun {x y} hx hy hxy heq => hxy ⟨?_, heq⟩
      rw [hgrouped.items b hb x hx, hgrouped.items b hb y hy]
    have hsorted := ((sortSamples_perm b).pairwise_iff fun hab => hab.symm).2 htimes
    refine ⟨sortSamples b, ?_⟩
    unfold sortSeries
    rw [repeatsTimestamp_of_distinct hsorted]
    rfl
  obtain ⟨order, horder⟩ := mapM_ok_of_forall hsort
  exact ⟨order, by rw [requestSeries, hgroup, ok_bind, horder]⟩

theorem validateSample_error {sample : SampleWithLabels} {e : String}
    (h : validateSample sample = .error e) : e ≠ errRequestBodyTooLarge := by
  revert h
  fun_cases validateSample sample
  case case4 =>
    intro h
    rcases bind_eq_error.1 h with hlabels | ⟨_, -, h⟩
    · obtain ⟨label, -, hlabel⟩ := forM_error hlabels
      unfold validateLabel at hlabel
      split_ifs at hlabel
      all_goals
        cases hlabel
        decide
    · split_ifs at h
      cases h
      decide
  all_goals
    rintro ⟨⟩
    decide

theorem requestSeries_error {e : String} (h : requestSeries samples = .error e) :
    e ≠ errRequestBodyTooLarge := by
  rcases bind_eq_error.1 h with hgroup | ⟨grouped, -, h⟩
  · obtain ⟨order, s, hstep⟩ := foldlM_error hgroup
    unfold addSample at hstep
    split at hstep
    next hvalid =>
      cases hstep
      exact validateSample_error hvalid
    · cases hstep
  · obtain ⟨b, -, hb⟩ := mapM_error h
    unfold sortSeries at hb
    split_ifs at hb
    cases hb
    decide

theorem Grouped.length_le {order : List WriteSeries} (h : Grouped samples order) :
    order.length ≤ samples.length := by
  rw [← h.contents.length_eq, Grouping.contents, length_flatMap]
  have hitems : ∀ n ∈ order.map fun b => b.items.length, 1 ≤ n := by
    intro n hn
    obtain ⟨b, hb, rfl⟩ := mem_map.1 hn
    obtain ⟨s, hs, -⟩ := h.header b hb
    exact length_pos_of_mem hs
  simpa using length_le_sum_of_one_le _ hitems

theorem length_layout_le (series : List TimeSeries) (h : ∀ t ∈ series, Bounded t)
    (hone : series.length ≤ 1) : (layout series).length ≤ 2 ^ 20 + 10 := by
  match series, hone with
  | [], _ => simp [layout, encodeFields]
  | [t], _ =>
    have hlt := length_seriesFields_lt (h t (by simp))
    have hvarint := length_varint_le (n := (encodeFields (seriesFields t)).length) (by omega)
    have hmessage : (layout [t]).length = 1 + ((varint (encodeFields (seriesFields t)).length).length +
        (encodeFields (seriesFields t)).length) := by
      simp [layout, encodeFields, seriesMessage, Field.encode, Value.wireType, Value.encode, sized,
        length_tag]
    rw [hmessage]
    omega

/-- Acceptable samples at distinct points are refused for the size of the body only. -/
theorem serializeWriteRequest_of_acceptable (snappy : Compression)
    (hall : ∀ s ∈ samples, Acceptable s) (hgo : ∀ s ∈ samples, GoSample s)
    (hpoints : samples.Pairwise fun a b => ¬ SamePoint a b)
    (hcount : samples.length ≤ maxSamplesPerRequest) :
    ((∃ body, serializeWriteRequest snappy samples = .ok body) ∨
      serializeWriteRequest snappy samples = .error errRequestBodyTooLarge) ∧
      (samples.length ≤ 1 → ∃ body, serializeWriteRequest snappy samples = .ok body) := by
  by_cases hnil : samples = []
  · have hok : serializeWriteRequest snappy samples = .ok [] := by
      rw [serializeWriteRequest, if_pos hnil]
    exact ⟨.inl ⟨[], hok⟩, fun _ => ⟨[], hok⟩⟩
  obtain ⟨order, horder⟩ := requestSeries_of_acceptable hall hpoints
  obtain ⟨-, hgrouped, -⟩ := requestSeries_spec horder
  have hbounded : ∀ b ∈ order, Bounded (timeSeries b) := fun b hb =>
    hgrouped.bounded hall hgo hcount hb
  have heq : serializeWriteRequest snappy samples =
      if maxRequestBodyBytes < (snappy.encode (layout (order.map timeSeries))).length then
        .error errRequestBodyTooLarge
      else .ok (snappy.encode (layout (order.map timeSeries))) := by
    rw [serializeWriteRequest, if_neg hnil, if_neg (Nat.not_lt.2 hcount), horder, ok_bind,
      appendSeries_layout hbounded]
  rw [heq]
  refine ⟨?_, fun hone => ⟨_, if_neg ?_⟩⟩
  · split
    · exact .inr rfl
    · exact .inl ⟨_, rfl⟩
  have hlen := length_layout_le (order.map timeSeries) (by simpa using hbounded)
    (by rw [length_map]; exact Nat.le_trans hgrouped.length_le hone)
  have hsnappy := snappy.bounded (layout (order.map timeSeries))
  unfold maxRequestBodyBytes
  omega

/-- A sample that is not acceptable stops the request, and not for its size. -/
theorem serializeWriteRequest_of_unacceptable (snappy : Compression)
    (hbad : ∃ s ∈ samples, ¬ Acceptable s) (hcount : samples.length ≤ maxSamplesPerRequest) :
    ∃ e, serializeWriteRequest snappy samples = .error e ∧ e ≠ errRequestBodyTooLarge := by
  obtain ⟨s, hs, hbad⟩ := hbad
  have hnil : samples ≠ [] := ne_nil_of_mem hs
  cases horder : requestSeries samples with
  | ok order => exact absurd ((requestSeries_spec horder).1 s hs) hbad
  | error e =>
    refine ⟨e, ?_, requestSeries_error horder⟩
    rw [serializeWriteRequest, if_neg hnil, if_neg (Nat.not_lt.2 hcount), horder, error_bind]

end

variable {current : Cursor} {assetRows : List AssetSampleRow} {hubRows : List HubSampleRow}

/-- The page is exported: the batch is built, its request is refused for its size at most,
and that of a single row is not. -/
def Exports (snappy : Compression) (current : Cursor) (assetRows : List AssetSampleRow)
    (hubRows : List HubSampleRow) : Prop :=
  ∃ batch, buildBatch current assetRows hubRows = .ok batch ∧
    ((∃ body, serializeWriteRequest snappy batch.samples = .ok body) ∨
      serializeWriteRequest snappy batch.samples = .error errRequestBodyTooLarge) ∧
    (assetRows.length + hubRows.length = 1 →
      ∃ body, serializeWriteRequest snappy batch.samples = .ok body)

/-- What the ingestion does not guarantee: short columns of the asset, and a time of at
least one millisecond after the start of 1970 for a row that is sent. -/
structure Exportable (assetRows : List AssetSampleRow) (hubRows : List HubSampleRow) : Prop where
  metadata : ∀ row ∈ assetRows, ShortMetadata row
  assetTimes : ∀ row ∈ assetRows, isReservedPromMetricName row.metric = false →
    1000 ≤ row.collectedAt
  hubTimes : ∀ row ∈ hubRows, 1000 ≤ row.collectedAt

theorem unixMilli_pos {t : ℤ} : 0 < unixMilli t ↔ 1000 ≤ t := by
  unfold unixMilli
  omega

theorem pageCandidates_samples (h : StoredPage current assetRows hubRows)
    (hshort : ∀ row ∈ assetRows, ShortMetadata row) :
    ∀ c ∈ pageCandidates assetRows hubRows, GoSample c.sample ∧
      (Acceptable c.sample ↔ 0 < c.sample.timestamp) := by
  intro c hc
  rcases mem_append.1 hc with hc | hc
  · obtain ⟨row, hrow, hcandidate⟩ := mem_filterMap.1 hc
    unfold assetCandidate at hcandidate
    split at hcandidate
    · cases hcandidate
    cases hcandidate
    have hwritten := h.assets row hrow
    exact ⟨assetSample_go hwritten, Acceptable.time,
      assetSample_acceptable hwritten (hshort row hrow)⟩
  · obtain ⟨row, hrow, rfl⟩ := mem_map.1 hc
    have hwritten := h.hubs row hrow
    exact ⟨hubSample_go hwritten, Acceptable.time, hubSample_acceptable hwritten⟩

theorem length_pageCandidates (assetRows : List AssetSampleRow) (hubRows : List HubSampleRow) :
    (pageCandidates assetRows hubRows).length ≤ assetRows.length + hubRows.length := by
  have hle := length_filterMap_le assetCandidate assetRows
  rw [pageCandidates, length_append, length_map]
  omega

theorem pageCandidates_times : (∀ c ∈ pageCandidates assetRows hubRows, 0 < c.sample.timestamp) ↔
    (∀ row ∈ assetRows, isReservedPromMetricName row.metric = false → 1000 ≤ row.collectedAt) ∧
      ∀ row ∈ hubRows, 1000 ≤ row.collectedAt := by
  constructor
  · intro h
    refine ⟨fun row hrow hreserved => unixMilli_pos.1 ?_, fun row hrow => unixMilli_pos.1 ?_⟩
    · have hmem : newSampleCandidate (assetSample row) row.metric row.labels row.id ∈
          pageCandidates assetRows hubRows := by
        refine mem_append_left _ (mem_filterMap.2 ⟨row, hrow, ?_⟩)
        simp [assetCandidate, hreserved]
      exact h _ hmem
    · exact h (hubCandidate row) (mem_append_right _ (mem_map_of_mem hrow))
  rintro ⟨hassets, hhubs⟩ c hc
  rcases mem_append.1 hc with hc | hc
  · obtain ⟨row, hrow, hcandidate⟩ := mem_filterMap.1 hc
    unfold assetCandidate at hcandidate
    split at hcandidate
    · cases hcandidate
    next hreserved =>
      cases hcandidate
      exact unixMilli_pos.2 (hassets row hrow (by simpa using hreserved))
  · obtain ⟨row, hrow, rfl⟩ := mem_map.1 hc
    exact unixMilli_pos.2 (hhubs row hrow)

theorem Chosen.points {incoming chosen : List SampleCandidate} (h : Chosen incoming chosen)
    {samples : List SampleWithLabels} (hperm : samples.Perm (chosen.map sample)) :
    samples.Pairwise fun a b => ¬ SamePoint a b := by
  have hsymm : ∀ {a b : SampleWithLabels}, ¬ SamePoint a b → ¬ SamePoint b a :=
    fun hab hba => hab ⟨hba.1.symm, hba.2.symm⟩
  refine (hperm.pairwise_iff hsymm).2 (pairwise_map.2 ?_)
  refine (pairwise_map.1 h.distinct).imp fun {a b} hne hsame => hne ?_
  unfold identity
  rw [hsame.1, hsame.2]

/-- Stored rows are exported exactly where the stored columns are short and the times are
after the first millisecond of 1970. -/
theorem exports_iff (snappy : Compression) (current : Cursor) (assetRows : List AssetSampleRow)
    (hubRows : List HubSampleRow) (h : StoredPage current assetRows hubRows) :
    Exports snappy current assetRows hubRows ↔ Exportable assetRows hubRows := by
  have hpage := length_pageCandidates assetRows hubRows
  have hcount := h.count
  constructor
  · rintro ⟨batch, hbatch, hserialize, -⟩
    have hshort := short_of_buildBatch h hbatch
    obtain ⟨batch', chosen, hbatch', hchosen, hperm⟩ := buildBatch_of_short h hshort
    rw [hbatch] at hbatch'
    cases hbatch'
    have hlen := hchosen.length
    have hsamples : batch.samples.length ≤ maxSamplesPerRequest := by
      rw [hperm.length_eq, length_map]
      omega
    suffices htimes : ∀ c ∈ pageCandidates assetRows hubRows, 0 < c.sample.timestamp by
      obtain ⟨hassets, hhubs⟩ := pageCandidates_times.1 htimes
      exact ⟨hshort, hassets, hhubs⟩
    intro c hc
    by_contra hbad
    -- the point of the row is in the batch, if not with this sample then with another one
    obtain ⟨d, hd, hidentity⟩ := mem_map.1 (hchosen.covers c hc)
    have htime : d.sample.timestamp = c.sample.timestamp :=
      congrArg SampleIdentity.timestamp hidentity
    have hmem : d.sample ∈ batch.samples := hperm.mem_iff.2 (mem_map_of_mem hd)
    obtain ⟨e, herror, hne⟩ := serializeWriteRequest_of_unacceptable snappy
      ⟨d.sample, hmem, fun haccept => hbad (htime ▸ haccept.time)⟩ hsamples
    rw [herror] at hserialize
    rcases hserialize with ⟨body, hbody⟩ | hlarge
    · cases hbody
    · cases hlarge
      exact hne rfl
  · intro hexportable
    obtain ⟨batch, chosen, hbatch, hchosen, hperm⟩ := buildBatch_of_short h hexportable.metadata
    have hlen := hchosen.length
    have hsamples : batch.samples.length = chosen.length := by rw [hperm.length_eq, length_map]
    have htimes := pageCandidates_times.2 ⟨hexportable.assetTimes, hexportable.hubTimes⟩
    have hgood : ∀ s ∈ batch.samples, Acceptable s ∧ GoSample s := by
      intro s hs
      obtain ⟨c, hc, rfl⟩ := mem_map.1 (hperm.mem_iff.1 hs)
      have hin := hchosen.subset c hc
      obtain ⟨hgo, haccept⟩ := pageCandidates_samples h hexportable.metadata c hin
      exact ⟨haccept.2 (htimes c hin), hgo⟩
    obtain ⟨haccepted, hone⟩ := serializeWriteRequest_of_acceptable snappy
      (fun s hs => (hgood s hs).1) (fun s hs => (hgood s hs).2) (hchosen.points hperm)
      (by omega)
    exact ⟨batch, hbatch, haccepted, fun hrow => hone (by omega)⟩

def cpuRowAt (collectedAt : ℤ) : AssetSampleRow where
  id := 1
  assetID := "nas"
  assetName := "NAS"
  assetType := "host"
  platform := "linux"
  dockerHost := ""
  dockerImage := ""
  dockerStack := ""
  metric := "cpu_used_percent"
  unit := "percent"
  value := 0
  collectedAt := collectedAt
  labels := []

theorem cpuRowAt_page {t : ℤ} (happend : appendSamples 1 (fun _ => true) [(cpuRowAt t).sample] =
    .ok ⟨[(cpuRowAt t).sample], [], 0⟩) : StoredPage ⟨0, 0⟩ [cpuRowAt t] [] where
  count := by simp [maxSamplesPerRequest]
  assets := by
    have htext : ∀ value ∈ ["NAS", "host", "linux", "", "", ""], containsNUL value = false := by
      decide
    intro row hrow
    rw [mem_singleton.1 hrow]
    exact ⟨Nat.one_pos, ⟨1, fun _ => true, _, _, by decide, happend, by simp⟩, htext⟩
  hubs := by simp
  assetOrder := pairwise_cons.2 ⟨by simp [cpuRowAt], pairwise_singleton _ _⟩
  hubOrder := pairwise_singleton _ _

/-- A row of the first millisecond of 1970 is stored, and stops the export at its page. -/
theorem epoch_row_not_exported : StoredPage ⟨0, 0⟩ [cpuRowAt 0] [] ∧
    ¬ Exports noCompression ⟨0, 0⟩ [cpuRowAt 0] [] := by
  refine ⟨cpuRowAt_page (by decide +kernel), ?_⟩
  rintro ⟨batch, hbatch, hserialize, -⟩
  have hbuild : buildBatch ⟨0, 0⟩ [cpuRowAt 0] [] = .ok ⟨[assetSample (cpuRowAt 0)], ⟨1, 0⟩, false⟩ := by
    decide +kernel
  rw [hbuild] at hbatch
  cases hbatch
  have herror : serializeWriteRequest noCompression [assetSample (cpuRowAt 0)] =
      .error "remotewrite: sample timestamp must be positive" := by
    decide +kernel
  rw [herror] at hserialize
  rcases hserialize with ⟨body, hbody⟩ | hlarge
  · cases hbody
  · revert hlarge
    decide

theorem exports_iff_2023 : StoredPage ⟨0, 0⟩ [cpuRowAt 1700000000000000] [] ∧
    (Exports noCompression ⟨0, 0⟩ [cpuRowAt 1700000000000000] [] ↔
      Exportable [cpuRowAt 1700000000000000] []) :=
  ⟨cpuRowAt_page (by decide +kernel), exports_iff noCompression _ _ _ (cpuRowAt_page (by decide +kernel))⟩

end LabTether.RemoteWrite
