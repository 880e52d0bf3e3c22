import LabTether.Paging
import LabTether.Telemetry
import LabTether.Transaction

/-!
Pages of samples for the Prometheus remote-write export: `BuildBatch` and the queries of
`SamplesAfter` (`internal/telemetry/remotewrite/samples.go`,
`internal/persistence/postgres_remote_write.go`). The two sample streams are read by increasing
row id, up to a cursor for each. Positions are naturals.
-/
namespace LabTether.RemoteWrite

open GoStrings Telemetry Transaction Paging List Sha256

/-- The replay position in the two streams. -/
structure Cursor where
  (assetSampleID hubSampleID : ℕ)
deriving DecidableEq

def Cursor.advances (c previous : Cursor) : Prop :=
  previous.assetSampleID < c.assetSampleID ∨ previous.hubSampleID < c.hubSampleID
  deriving Decidable

def Cursor.notBehind (c previous : Cursor) : Prop :=
  previous.assetSampleID ≤ c.assetSampleID ∧ previous.hubSampleID ≤ c.hubSampleID
  deriving Decidable

/-- A row of `metric_samples`, joined with its asset. -/
structure AssetSampleRow where
  id : ℕ
  (assetID assetName assetType platform dockerHost dockerImage dockerStack metric unit : String)
  value : BitVec 64
  collectedAt : ℤ
  labels : Labels
deriving DecidableEq

structure HubSampleRow where
  id : ℕ
  (scope metric unit : String)
  value : BitVec 64
  collectedAt : ℤ
  labels : Labels
deriving DecidableEq

structure SampleWithLabels where
  labels : Labels
  value : BitVec 64
  timestamp : ℤ
deriving DecidableEq

def maxSamplesPerRequest : ℕ := 500

def metricPrefix : String := "labtether_"

def sanitizeMetricName (name : String) : String :=
  String.ofList (name.toList.map fun c =>
    if ('a' ≤ c ∧ c ≤ 'z') ∨ ('A' ≤ c ∧ c ≤ 'Z') ∨ ('0' ≤ c ∧ c ≤ '9') ∨ c = '_' then c else '_')

def reservedMetrics : List String := [
  "asset_info", "alerts_firing", "alerts_rules", "alert_evaluation_duration_ms",
  "site_reliability_score"]

/-- The exporter publishes these names itself; an asset's sample under one is not sent. -/
def isReservedPromMetricName (rawMetric : String) : Bool :=
  reservedMetrics.any fun m => sanitizeMetricName rawMetric = sanitizeMetricName m

def assetMetricLabelKeys : List String := [
  "mount_point", "interface", "process_name", "process_pid", "service_name", "service_url",
  "check_type", "target", "datastore", "proxmox_node", "site_id", "site_name", "rule_name"]

variable (row : AssetSampleRow)

def AssetSampleRow.metadataValues : List String :=
  [row.assetName, row.assetType, row.platform] ++
    if row.assetType = "docker-container" then [row.dockerHost, row.dockerImage, row.dockerStack]
    else []

def AssetSampleRow.docker (value : String) : String :=
  if row.assetType = "docker-container" then value else ""

def assetRowSample : Except String SampleWithLabels :=
  let metric := trimSpace row.metric
  if row.id = 0 ∨ trimSpace row.assetID = "" ∨ metric = "" ∨ row.collectedAt = zeroTime then
    .error "required field is missing"
  else do
    let _ ← metricSampleEnvelopeBytes ⟨row.assetID, "", metric, row.unit, row.value,
      row.collectedAt, row.labels⟩
    if row.metadataValues.any fun v => maxMetricIdentityBytes < v.utf8ByteSize then
      .error "asset metadata exceeds limit"
    else .ok {
      labels := [ ("__name__", metricPrefix ++ sanitizeMetricName metric),
        ("asset_id", row.assetID),
        ("asset_name", row.assetName),
        ("asset_type", row.assetType),
        ("group", ""),
        ("platform", row.platform),
        ("docker_host", row.docker row.dockerHost),
        ("docker_image", row.docker row.dockerImage),
        ("docker_stack", row.docker row.dockerStack)] ++
        assetMetricLabelKeys.map fun key => (key, row.labels.get key)
      value := row.value
      timestamp := unixMilli row.collectedAt }

def hubRowSample (row : HubSampleRow) : Except String SampleWithLabels :=
  if row.id = 0 ∨ row.collectedAt = zeroTime then .error "required field is missing"
  else do
    let s ← normalizeHubMetricSample ⟨"", row.scope, row.metric, row.unit, row.value,
      row.collectedAt, row.labels⟩
    .ok {
      labels := [("__name__", metricPrefix ++ sanitizeMetricName s.metric), ("scope", s.scope)] ++
        ((hubMetricLabelKeys s.scope s.metric).getD []).map fun key => (key, s.labels.get key)
      value := s.value
      timestamp := unixMilli s.collectedAt }

/-- `sortedLabels`: the metric name first, the other names in order. -/
def sortedLabels (labels : Labels) : Labels :=
  labels.insertionSort fun a b => a.1 = "__name__" ∨ (b.1 ≠ "__name__" ∧ a.1 ≤ b.1)

/-- `labelFingerprint`, as bytes: every name and value after its length. -/
def labelFingerprint (labels : Labels) : List ℕ :=
  (sortedLabels labels).flatMap fun e =>
    bigEndian 4 e.1.utf8ByteSize ++ utf8Bytes e.1 ++
      bigEndian 4 e.2.utf8ByteSize ++ utf8Bytes e.2

structure SampleCandidate where
  sample : SampleWithLabels
  (rawMetric fullLabelsJSON : String)
  rowID : ℕ

def newSampleCandidate (sample : SampleWithLabels) (rawMetric : String) (rawLabels : Labels)
    (rowID : ℕ) : SampleCandidate :=
  ⟨sample, rawMetric, if rawLabels = [] then "\x7b\x7d" else rawLabels.json, rowID⟩

structure SampleIdentity where
  labels : List ℕ
  timestamp : ℤ
deriving DecidableEq

def SampleCandidate.identity (c : SampleCandidate) : SampleIdentity :=
  ⟨labelFingerprint c.sample.labels, c.sample.timestamp⟩

def isCanonical (rawMetric : String) : Bool := rawMetric = sanitizeMetricName rawMetric

def preferredCandidate (incoming current : SampleCandidate) : Bool :=
  if isCanonical incoming.rawMetric ≠ isCanonical current.rawMetric then
    isCanonical incoming.rawMetric
  else if incoming.rawMetric ≠ current.rawMetric then incoming.rawMetric < current.rawMetric
  else if incoming.fullLabelsJSON ≠ current.fullLabelsJSON then
    incoming.fullLabelsJSON < current.fullLabelsJSON
  else current.rowID < incoming.rowID

abbrev Candidates := List SampleCandidate

def insertCanonicalCandidate (target : Candidates) (incoming : SampleCandidate) : Candidates :=
  match target.find? fun c => c.identity = incoming.identity with
  | none => target ++ [incoming]
  | some current =>
    if preferredCandidate incoming current then
      target.map fun c => if c.identity = incoming.identity then incoming else c
    else target

def identityLE (a b : SampleCandidate) : Prop :=
  a.identity.labels < b.identity.labels ∨
    (a.identity.labels = b.identity.labels ∧ a.identity.timestamp ≤ b.identity.timestamp)
  deriving Decidable

section

structure Batch where
  samples : List SampleWithLabels
  next : Cursor
  more : Bool
deriving DecidableEq

/-- What the loops of `BuildBatch` carry: the last row id and the candidates. -/
structure Progress where
  previousID : ℕ
  candidates : Candidates

def addAssetRow (st : Progress) (row : AssetSampleRow) : Except String Progress :=
  if row.id ≤ st.previousID then .error "remotewrite: asset replay row is out of order"
  else
    match assetRowSample row with
    | .error e => .error ("remotewrite: invalid asset replay row " ++ toString row.id ++ ": " ++ e)
    | .ok sample =>
      .ok ⟨row.id, if isReservedPromMetricName row.metric then st.candidates
        else insertCanonicalCandidate st.candidates
          (newSampleCandidate sample row.metric row.labels row.id)⟩

def addHubRow (st : Progress) (row : HubSampleRow) : Except String Progress :=
  if row.id ≤ st.previousID then .error "remotewrite: hub replay row is out of order"
  else
    match hubRowSample row with
    | .error e => .error ("remotewrite: invalid hub replay row " ++ toString row.id ++ ": " ++ e)
    | .ok sample =>
      .ok ⟨row.id, insertCanonicalCandidate st.candidates
        (newSampleCandidate sample row.metric row.labels row.id)⟩

/-- `BuildBatch`; `more` is left to the caller. -/
def buildBatch (current : Cursor) (assetRows : List AssetSampleRow) (hubRows : List HubSampleRow) :
    Except String Batch :=
  if maxSamplesPerRequest < assetRows.length + hubRows.length then
    .error "remotewrite: invalid persisted replay page"
  else do
    let assets ← assetRows.foldlM addAssetRow ⟨current.assetSampleID, []⟩
    let hubs ← hubRows.foldlM addHubRow ⟨current.hubSampleID, assets.candidates⟩
    .ok {
      samples := (hubs.candidates.insertionSort identityLE).map SampleCandidate.sample
      next := ⟨assets.previousID, hubs.previousID⟩
      more := false }

/-- The third query of `SamplesAfter`: a stream that ran short leaves its share to the
other. -/
inductive ExtraQuery
  | none
  | assets (afterID limit : ℕ)
  | hubs (afterID limit : ℕ)

def assetLimit (limit : ℕ) : ℕ := (limit + 1) / 2

def hubLimit (limit : ℕ) : ℕ := limit / 2

def extraQuery (current : Cursor) (limit : ℕ) (assetRows : List AssetSampleRow)
    (hubRows : List HubSampleRow) : ExtraQuery :=
  if assetRows.length = assetLimit limit ∧ hubRows.length < hubLimit limit then
    .assets (lastKey AssetSampleRow.id current.assetSampleID assetRows)
      (hubLimit limit - hubRows.length)
  else if hubRows.length = hubLimit limit ∧ assetRows.length < assetLimit limit then
    .hubs (lastKey HubSampleRow.id current.hubSampleID hubRows)
      (assetLimit limit - assetRows.length)
  else .none

def batchAfter (current : Cursor) (limit : ℕ) (assetRows : List AssetSampleRow)
    (hubRows : List HubSampleRow) : Except String Batch := do
  let batch ← buildBatch current assetRows hubRows
  .ok { batch with more := assetRows.length + hubRows.length = limit }

variable {current : Cursor} {assetRows : List AssetSampleRow} {hubRows : List HubSampleRow}

theorem extraQuery_after {limit : ℕ} :
    (∀ {afterID n}, extraQuery current limit assetRows hubRows = .assets afterID n →
      afterID = lastKey AssetSampleRow.id current.assetSampleID assetRows) ∧
    (∀ {afterID n}, extraQuery current limit assetRows hubRows = .hubs afterID n →
      afterID = lastKey HubSampleRow.id current.hubSampleID hubRows) := by
  fun_cases extraQuery current limit assetRows hubRows
  all_goals
    constructor
    · rintro afterID n ⟨⟩
      try rfl
    · rintro afterID n ⟨⟩
      try rfl

variable {st st' : Progress}

theorem addAssetRow_ok {row : AssetSampleRow}
    (h : addAssetRow st row = .ok st') : st.previousID < row.id ∧ st'.previousID = row.id := by
  revert h
  fun_cases addAssetRow st row
  all_goals rintro ⟨⟩
  exact ⟨by omega, rfl⟩

theorem addHubRow_ok {row : HubSampleRow}
    (h : addHubRow st row = .ok st') : st.previousID < row.id ∧ st'.previousID = row.id := by
  revert h
  fun_cases addHubRow st row
  all_goals rintro ⟨⟩
  exact ⟨by omega, rfl⟩

/-- A loop that checks each id against the last one accepts increasing ids only, and ends
at the last of them. -/
theorem foldlM_ascends {α : Type} (key : α → ℕ) {add : Progress → α → Except String Progress}
    (hadd : ∀ st row st', add st row = .ok st' → st.previousID < key row ∧ st'.previousID = key row)
    {rows : List α} (h : rows.foldlM add st = .ok st') :
    Ascends key st.previousID rows ∧ st'.previousID = lastKey key st.previousID rows := by
  induction rows generalizing st with
  | nil =>
    rw [foldlM_nil] at h
    cases h
    exact ⟨pairwise_singleton _ _, rfl⟩
  | cons row rows ih =>
    rw [foldlM_cons] at h
    obtain ⟨mid, hmid, h⟩ := bind_eq_ok.1 h
    obtain ⟨hlt, hid⟩ := hadd st row mid hmid
    obtain ⟨hasc, hlast⟩ := ih h
    rw [hid] at hasc hlast
    refine ⟨?_, ?_⟩
    · refine pairwise_cons.2 ⟨forall_mem_cons.2 ⟨hlt, fun n hn => ?_⟩, hasc⟩
      exact lt_trans hlt ((pairwise_cons.1 hasc).1 n hn)
    · rw [hlast, ← singleton_append, lastKey_append]
      rfl

theorem buildBatch_ok {batch : Batch} (h : buildBatch current assetRows hubRows = .ok batch) :
    Ascends AssetSampleRow.id current.assetSampleID assetRows ∧
      Ascends HubSampleRow.id current.hubSampleID hubRows ∧
      batch.next = ⟨lastKey AssetSampleRow.id current.assetSampleID assetRows,
        lastKey HubSampleRow.id current.hubSampleID hubRows⟩ := by
  unfold buildBatch at h
  split at h
  · cases h
  obtain ⟨assets, hassets, h⟩ := bind_eq_ok.1 h
  obtain ⟨hubs, hhubs, h⟩ := bind_eq_ok.1 h
  cases h
  obtain ⟨hasc, hlast⟩ := foldlM_ascends AssetSampleRow.id (fun _ _ _ h => addAssetRow_ok h) hassets
  obtain ⟨hasc', hlast'⟩ := foldlM_ascends HubSampleRow.id (fun _ _ _ h => addHubRow_ok h) hhubs
  refine ⟨hasc, hasc', ?_⟩
  simp [hlast, hlast']

end

end LabTether.RemoteWrite
