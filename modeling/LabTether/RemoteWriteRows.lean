import LabTether.MetricIngestion
import LabTether.RemoteWriteFormat

/-!
Rows written by the ingestion, as samples of a page. The limits of the ingestion are those
of the exporter, with two exceptions: the ingestion takes any time, and the columns of the
asset that go into labels are not limited when they are stored.
-/
namespace LabTether.RemoteWrite

open GoStrings Telemetry Transaction List

theorem ascii_of_name {c : Char} (h : (nameStart c || digit c) = true) :
    c.utf8Size = 1 ∧ c.toNat ≠ 0 := by
  have hrange : 48 ≤ c.toNat ∧ c.toNat ≤ 122 := by
    simp only [nameStart, digit, Bool.or_eq_true, Bool.and_eq_true, decide_eq_true_eq] at h
    rcases h with ((⟨ha, hz⟩ | ⟨ha, hz⟩) | rfl) | ⟨ha, hz⟩
    · have h1 : 97 ≤ c.toNat := ha
      have h2 : c.toNat ≤ 122 := hz
      omega
    · have h1 : 65 ≤ c.toNat := ha
      have h2 : c.toNat ≤ 90 := hz
      omega
    · decide
    · have h1 : 48 ≤ c.toNat := ha
      have h2 : c.toNat ≤ 57 := hz
      omega
  refine ⟨?_, by omega⟩
  have hval : c.val ≤ 0x7f := by
    rw [UInt32.le_iff_toNat_le]
    show c.toNat ≤ 127
    omega
  simp [Char.utf8Size, hval]

theorem sanitizeMetricName_chars (name : String) :
    ∀ c ∈ (sanitizeMetricName name).toList, (nameStart c || digit c) = true := by
  intro c hc
  rw [sanitizeMetricName, String.toList_ofList] at hc
  obtain ⟨d, -, rfl⟩ := mem_map.1 hc
  split
  next h =>
    simp only [nameStart, digit, Bool.or_eq_true, Bool.and_eq_true, decide_eq_true_eq]
    rcases h with h | h | h | h
    · exact .inl (.inl (.inl h))
    · exact .inl (.inl (.inr h))
    · exact .inr h
    · exact .inl (.inr h)
  next => decide

theorem sanitizeMetricName_size (name : String) :
    (sanitizeMetricName name).utf8ByteSize ≤ name.utf8ByteSize := by
  have hones : ∀ n ∈ (sanitizeMetricName name).toList.map Char.utf8Size, n ≤ 1 := by
    intro n hn
    obtain ⟨c, hc, rfl⟩ := mem_map.1 hn
    exact (ascii_of_name (sanitizeMetricName_chars name c hc)).1.le
  have hsum := sum_le_card_nsmul _ 1 hones
  have hlen : (sanitizeMetricName name).toList.length = name.toList.length := by
    rw [sanitizeMetricName, String.toList_ofList, length_map]
  have hname := length_le_utf8ByteSize name
  rw [utf8ByteSize_eq_sum]
  simp only [length_map, smul_eq_mul, mul_one] at hsum
  omega

variable {metric : String}

theorem exportedName_valid (h : metric.utf8ByteSize ≤ maxMetricNameBytes) :
    validMetricName (metricPrefix ++ sanitizeMetricName metric) = true ∧
      (metricPrefix ++ sanitizeMetricName metric).utf8ByteSize ≤ maxLabelValueBytes ∧
      containsNUL (metricPrefix ++ sanitizeMetricName metric) = false := by
  have hchars := sanitizeMetricName_chars metric
  have hsize : (metricPrefix ++ sanitizeMetricName metric).utf8ByteSize ≤ maxLabelValueBytes := by
    have hle := sanitizeMetricName_size metric
    have hfirst : metricPrefix.utf8ByteSize = 10 := by decide
    rw [String.utf8ByteSize_append, hfirst]
    unfold maxMetricNameBytes at h
    unfold maxLabelValueBytes
    omega
  have hlist : (metricPrefix ++ sanitizeMetricName metric).toList =
      'l' :: ("abtether_".toList ++ (sanitizeMetricName metric).toList) := by
    rw [String.toList_append]
    rfl
  have hfirst : ∀ c ∈ "abtether_".toList, (nameStart c || digit c) = true :=
    all_eq_true.1 (by decide)
  have hall := forall_mem_append.2 ⟨hfirst, hchars⟩
  refine ⟨?_, hsize, ?_⟩
  · have hrest : ("abtether_".toList ++ (sanitizeMetricName metric).toList).all
        (fun c => nameStart c || (c = ':') || digit c) = true := by
      rw [all_eq_true]
      intro c hc
      have hc := hall c hc
      simp only [Bool.or_eq_true] at hc ⊢
      rcases hc with hc | hc
      · exact .inl (.inl hc)
      · exact .inr hc
    have hstart : (nameStart 'l' || decide ('l' = ':')) = true := by decide
    unfold validMetricName
    rw [hlist, validName, hstart, hrest, decide_eq_true hsize]
    rfl
  · simp only [containsNUL, hlist, any_cons, Bool.or_eq_false_iff, any_eq_false, decide_eq_true_eq]
    exact ⟨by decide, fun c hc => (ascii_of_name (hall c hc)).2⟩

/-- Names of labels that every sample with short values may have together. -/
def FitNames (names : List String) : Prop :=
  names.Nodup ∧ names.length ≤ 22 ∧
    (∀ name ∈ names, validLabelName name = true ∧ name.utf8ByteSize ≤ maxLabelNameBytes) ∧
    (names.map String.utf8ByteSize).sum ≤ 1024
  deriving Decidable

def FitValue (value : String) : Prop :=
  value.utf8ByteSize ≤ maxLabelValueBytes ∧ containsNUL value = false

theorem fitValue_empty : FitValue "" := by
  unfold FitValue
  decide

theorem acceptable_of_names {sample : SampleWithLabels} {rest : Labels}
    (hlabels : sample.labels = ("__name__", metricPrefix ++ sanitizeMetricName metric) :: rest)
    (hmetric : metric.utf8ByteSize ≤ maxMetricNameBytes)
    (hnames : FitNames (sample.labels.map Prod.fst)) (hvalues : ∀ e ∈ rest, FitValue e.2)
    (htime : 0 < sample.timestamp) : Acceptable sample := by
  obtain ⟨hvalid, hshort, hnul⟩ := exportedName_valid hmetric
  obtain ⟨-, hcount, hname, hsum⟩ := hnames
  rw [length_map] at hcount
  have hall : ∀ e ∈ sample.labels, FitValue e.2 := by
    rw [hlabels]
    exact forall_mem_cons.2 ⟨⟨hshort, hnul⟩, hvalues⟩
  refine ⟨htime, by simp [hlabels], ?_, by simp [hlabels, hvalid], ?_, ?_⟩
  · unfold maxLabelsPerSample
    omega
  · intro e he
    have hkey := hname e.1 (mem_map_of_mem he)
    exact ⟨hkey.1, ⟨hkey.2, (hall e he).1⟩, (hall e he).2⟩
  have hbound := sum_le_card_nsmul (sample.labels.map fun e => e.2.utf8ByteSize) 1024 (by
    intro n hn
    obtain ⟨e, he, rfl⟩ := mem_map.1 hn
    exact (hall e he).1)
  simp only [length_map, smul_eq_mul] at hbound
  simp only [map_map, Function.comp_def] at hsum
  rw [sum_map_add]
  unfold maxSampleBytes
  omega

section

def AssetSampleRow.sample (row : AssetSampleRow) : MetricSample :=
  ⟨row.assetID, "", row.metric, row.unit, row.value, row.collectedAt, row.labels⟩

open AssetSampleRow

def HubSampleRow.sample (row : HubSampleRow) : MetricSample :=
  ⟨"", row.scope, row.metric, row.unit, row.value, row.collectedAt, row.labels⟩

/-- A row that `AppendSamples` wrote. Ids start at one, the clock is not at the zero time,
and a text column holds no NUL. -/
structure WrittenAsset (row : AssetSampleRow) : Prop where
  id : 0 < row.id
  append : ∃ now knownAsset samples written, now ≠ zeroTime ∧
    appendSamples now knownAsset samples = .ok written ∧ row.sample ∈ written.assetSamples
  text : ∀ value ∈ [row.assetName, row.assetType, row.platform, row.dockerHost, row.dockerImage,
    row.dockerStack], containsNUL value = false

structure WrittenHub (row : HubSampleRow) : Prop where
  id : 0 < row.id
  append : ∃ now knownAsset samples written, now ≠ zeroTime ∧
    appendSamples now knownAsset samples = .ok written ∧ row.sample ∈ written.hubSamples

/-- The columns of the asset that go into labels are short enough for them. -/
def ShortMetadata (row : AssetSampleRow) : Prop :=
  ∀ value ∈ row.metadataValues, value.utf8ByteSize ≤ maxMetricIdentityBytes
  deriving Decidable

def assetSample (row : AssetSampleRow) : SampleWithLabels where
  labels := ("__name__", metricPrefix ++ sanitizeMetricName (trimSpace row.metric)) :: ([
    ("asset_id", row.assetID), ("asset_name", row.assetName), ("asset_type", row.assetType),
    ("group", ""), ("platform", row.platform), ("docker_host", row.docker row.dockerHost),
    ("docker_image", row.docker row.dockerImage), ("docker_stack", row.docker row.dockerStack)] ++
    assetMetricLabelKeys.map fun key => (key, row.labels.get key))
  value := row.value
  timestamp := unixMilli row.collectedAt

def hubSample (row : HubSampleRow) : SampleWithLabels where
  labels := ("__name__", metricPrefix ++ sanitizeMetricName row.metric) :: ("scope", row.scope) ::
    (row.labels.map Prod.fst).map fun key => (key, row.labels.get key)
  value := row.value
  timestamp := unixMilli row.collectedAt

variable {row : AssetSampleRow} {hub : HubSampleRow}

theorem WrittenAsset.stored (h : WrittenAsset row) :
    StoredAsset row.sample ∧ storableTime row.collectedAt := by
  obtain ⟨now, knownAsset, samples, written, hnow, happend, hmem⟩ := h.append
  exact (appendSamples_stored hnow happend).1 row.sample hmem

theorem WrittenHub.stored (h : WrittenHub hub) :
    StoredHub hub.sample ∧ storableTime hub.collectedAt := by
  obtain ⟨now, knownAsset, samples, written, hnow, happend, hmem⟩ := h.append
  exact (appendSamples_stored hnow happend).2 hub.sample hmem

theorem assetRowSample_eq (h : WrittenAsset row) : assetRowSample row =
    if ShortMetadata row then .ok (assetSample row) else .error "asset metadata exceeds limit" := by
  have hstored := h.stored.1
  have hid := h.id
  obtain ⟨htrimID, hassetID⟩ := hstored.assetID
  obtain ⟨htrimMetric, hmetric⟩ := hstored.metric
  have htime := hstored.time
  obtain ⟨n, hbytes⟩ := exists_envelopeBytes_iff.2 hstored.envelope
  simp only [sample] at htrimID hassetID htrimMetric hmetric htime hbytes
  have hmetadata : (row.metadataValues.any fun v => maxMetricIdentityBytes < v.utf8ByteSize) = true ↔
      ¬ ShortMetadata row := by
    unfold ShortMetadata
    simp only [any_eq_true, decide_eq_true_eq, not_forall, not_le, exists_prop]
  unfold assetRowSample
  rw [if_neg (by rw [htrimID, htrimMetric]; simp [hassetID, hmetric, htime]; omega), htrimMetric,
    hbytes, ok_bind]
  by_cases hshort : ShortMetadata row
  · rw [if_pos hshort, if_neg (fun hlong => hmetadata.1 hlong hshort)]
    simp [assetSample, htrimMetric]
  · rw [if_neg hshort, if_pos (hmetadata.2 hshort)]

theorem hubRowSample_eq (h : WrittenHub hub) : hubRowSample hub = .ok (hubSample hub) := by
  have hstored := h.stored.1
  have hid := h.id
  have htime := hstored.time
  have hnormal := hstored.normal
  have hschema := hstored.schema
  simp only [HubSampleRow.sample] at htime hnormal hschema
  unfold hubRowSample
  rw [if_neg (by simp [htime]; omega), hnormal, ok_bind]
  simp [hubSample, hschema]

theorem assetSample_names (row : AssetSampleRow) :
    FitNames ((assetSample row).labels.map Prod.fst) := by
  have hnames : (assetSample row).labels.map Prod.fst =
      ["__name__", "asset_id", "asset_name", "asset_type", "group", "platform", "docker_host",
        "docker_image", "docker_stack"] ++ assetMetricLabelKeys := by
    simp [assetSample, Function.comp_def]
  rw [hnames]
  decide +kernel

theorem hubSample_names (h : WrittenHub hub) : FitNames ((hubSample hub).labels.map Prod.fst) := by
  have hnames : (hubSample hub).labels.map Prod.fst =
      "__name__" :: "scope" :: hub.labels.map Prod.fst := by
    simp [hubSample, Function.comp_def]
  rw [hnames]
  exact hubMetricLabelKeys_cases (P := fun _ keys => FitNames ("__name__" :: "scope" :: keys))
    h.stored.1.schema (by decide +kernel)

theorem fitValue_get {labels : Labels}
    (h : ∀ e ∈ labels, e.2.utf8ByteSize ≤ maxMetricLabelValueBytes ∧ containsNUL e.2 = false)
    (key : String) : FitValue (labels.get key) := by
  unfold Labels.get
  cases hlookup : labels.lookup key with
  | none => exact fitValue_empty
  | some value =>
    obtain ⟨before, after, hsplit, -⟩ := lookup_eq_some_iff.1 hlookup
    exact h (key, value) (by simp [hsplit])

theorem assetSample_acceptable (h : WrittenAsset row) (hshort : ShortMetadata row)
    (htime : 0 < unixMilli row.collectedAt) : Acceptable (assetSample row) := by
  have hstored := h.stored.1
  have hfields := hstored.envelope.fields
  simp only [limitedFields, sample, mem_cons, not_mem_nil, or_false,
    forall_eq_or_imp, forall_eq] at hfields
  obtain ⟨hassetID, -, ⟨hmetric, -⟩, -⟩ := hfields
  have htext := h.text
  simp only [mem_cons, not_mem_nil, or_false, forall_eq_or_imp, forall_eq] at htext
  obtain ⟨hname, htype, hplatform, hhost, himage, hstack⟩ := htext
  have hmeta : ∀ value ∈ row.metadataValues, value.utf8ByteSize ≤ maxLabelValueBytes := hshort
  have hdocker : ∀ value ∈ [row.dockerHost, row.dockerImage, row.dockerStack],
      FitValue (row.docker value) := by
    intro value hvalue
    unfold docker
    split
    next hcontainer =>
      refine ⟨hmeta value ?_, ?_⟩
      · simp only [metadataValues, if_pos hcontainer]
        exact mem_append_right _ hvalue
      simp only [mem_cons, not_mem_nil, or_false] at hvalue
      rcases hvalue with rfl | rfl | rfl
      · exact hhost
      · exact himage
      · exact hstack
    next => exact fitValue_empty
  have hmetric' : (trimSpace row.metric).utf8ByteSize ≤ maxMetricNameBytes :=
    Nat.le_trans (utf8ByteSize_trimSpace_le _) hmetric
  apply acceptable_of_names rfl hmetric' (assetSample_names row) ?_ htime
  intro e he
  rcases mem_append.1 he with he | he
  · simp only [mem_cons, not_mem_nil, or_false] at he
    rcases he with rfl | rfl | rfl | rfl | rfl | rfl | rfl | rfl
    · exact hassetID
    · exact ⟨hmeta _ (by simp [metadataValues]), hname⟩
    · exact ⟨hmeta _ (by simp [metadataValues]), htype⟩
    · exact fitValue_empty
    · exact ⟨hmeta _ (by simp [metadataValues]), hplatform⟩
    all_goals exact hdocker _ (by simp)
  · obtain ⟨key, -, rfl⟩ := mem_map.1 he
    exact fitValue_get hstored.envelope.values key

theorem hubSample_acceptable (h : WrittenHub hub) (htime : 0 < unixMilli hub.collectedAt) :
    Acceptable (hubSample hub) := by
  have hstored := h.stored.1
  apply acceptable_of_names rfl hstored.metric (hubSample_names h) ?_ htime
  intro e he
  rcases mem_cons.1 he with rfl | he
  · exact hstored.scope
  · obtain ⟨key, -, rfl⟩ := mem_map.1 he
    exact fitValue_get hstored.values key

theorem unixMilli_lt {t : ℤ} (h : storableTime t) : unixMilli t < 2 ^ 63 := by
  unfold storableTime at h
  unfold unixMilli
  omega

theorem assetSample_go (h : WrittenAsset row) : GoSample (assetSample row) :=
  ⟨(assetSample_names row).1, unixMilli_lt h.stored.2⟩

theorem hubSample_go (h : WrittenHub hub) : GoSample (hubSample hub) :=
  ⟨(hubSample_names h).1, unixMilli_lt h.stored.2⟩

end

/-- The names that the scrape collector (`promexport/collector.go`) reserves. -/
def collectorReserved : List String :=
  reservedMetrics ++ ["synthetic_latency_ms", "synthetic_status"]

def collectorReserves (rawMetric : String) : Bool :=
  collectorReserved.any fun m => sanitizeMetricName rawMetric = sanitizeMetricName m

/-- The name under which an asset's metric is published, unless it is dropped. -/
def remoteWriteName (metric : String) : Option String :=
  if isReservedPromMetricName metric then none
  else some (metricPrefix ++ sanitizeMetricName (trimSpace metric))

def scrapeName (metric : String) : Option String :=
  if collectorReserves metric then none else some (metricPrefix ++ sanitizeMetricName metric)

/-- The name of the asset gauge or of a hub metric. -/
def Owned (name : String) : Prop :=
  name = metricPrefix ++ "asset_info" ∨ ∃ scope metric, (hubMetricLabelKeys scope metric).isSome ∧
    name = metricPrefix ++ sanitizeMetricName (trimSpace metric)

theorem owned_iff {x : String} : Owned (metricPrefix ++ x) ↔ x ∈ collectorReserved := by
  simp only [Owned, String.append_right_inj]
  constructor
  · rintro (rfl | ⟨scope, metric, hkeys, rfl⟩)
    · decide
    · obtain ⟨keys, hkeys⟩ := Option.isSome_iff_exists.1 hkeys
      exact hubMetricLabelKeys_cases (P := fun m _ => sanitizeMetricName m ∈ collectorReserved)
        hkeys (by decide)
  · intro h
    have hall : ∀ y ∈ collectorReserved, y = "asset_info" ∨
        ∃ scope ∈ ["hub-alerts", "hub-reliability", "hub-synthetic"],
          (hubMetricLabelKeys scope y).isSome ∧ y = sanitizeMetricName (trimSpace y) := by
      decide +kernel
    exact (hall x h).imp_right fun ⟨scope, _, hkeys, heq⟩ => ⟨scope, x, hkeys, heq⟩

theorem any_sanitized {x : String} {l : List String} (h : ∀ m ∈ l, sanitizeMetricName m = m) :
    (l.any fun m => x = sanitizeMetricName m) = true ↔ x ∈ l := by
  rw [any_eq_true]
  constructor
  · rintro ⟨m, hm, heq⟩
    rw [of_decide_eq_true heq, h m hm]
    exact hm
  · intro hx
    exact ⟨x, hx, decide_eq_true (h x hx).symm⟩

/-- Both paths drop the same names and publish none that is owned, but for the names of synthetic
checks and names that only trimming makes an owned one. -/
theorem same_namespace_iff (metric : String) :
    ((isReservedPromMetricName metric ↔ collectorReserves metric) ∧
      (∀ name ∈ remoteWriteName metric, ¬ Owned name) ∧
      ∀ name ∈ scrapeName metric, ¬ Owned name) ↔
    sanitizeMetricName metric ∉ ["synthetic_latency_ms", "synthetic_status"] ∧
      (sanitizeMetricName (trimSpace metric) ∈ collectorReserved →
        sanitizeMetricName metric ∈ reservedMetrics) := by
  have hwrite : isReservedPromMetricName metric ↔ sanitizeMetricName metric ∈ reservedMetrics :=
    any_sanitized (by decide +kernel)
  have hscrape : collectorReserves metric ↔ sanitizeMetricName metric ∈ collectorReserved :=
    any_sanitized (by decide +kernel)
  have hapart : ∀ x ∈ reservedMetrics, x ∉ ["synthetic_latency_ms", "synthetic_status"] := by decide
  constructor
  · intro ⟨hsame, hwritten, _⟩
    refine ⟨fun hsyn => ?_, fun howned => ?_⟩
    · have hres := hwrite.1 (hsame.2 (hscrape.2 (mem_append_right _ hsyn)))
      exact absurd hsyn (hapart _ hres)
    · by_contra hfree
      exact hwritten _ (if_neg fun h => hfree (hwrite.1 h)) (owned_iff.2 howned)
  · intro ⟨hsyn, htrim⟩
    refine ⟨?_, fun name hname howned => ?_, fun name hname howned => ?_⟩
    · rw [hwrite, hscrape, collectorReserved, mem_append, or_iff_left hsyn]
    · obtain ⟨hfree, heq⟩ := Option.ite_none_left_eq_some.1 hname
      cases heq
      exact hfree (hwrite.2 (htrim (owned_iff.1 howned)))
    · obtain ⟨hfree, heq⟩ := Option.ite_none_left_eq_some.1 hname
      cases heq
      exact hfree (hscrape.2 (owned_iff.1 howned))

theorem synthetic_status_exported :
    isReservedPromMetricName "synthetic_status" = false ∧ collectorReserves "synthetic_status" ∧
      remoteWriteName "synthetic_status" = some "labtether_synthetic_status" ∧
      remoteWriteName " alerts_firing" = some "labtether_alerts_firing" := by
  decide +kernel

end LabTether.RemoteWrite
